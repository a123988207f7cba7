import SbllMalloc.SharedHeap.MergeInv

/-!
# The merge pass keeps the invariant

Between flushes `MergeManyPages` changes nothing: it only classifies pages and extends its open
run. `RunOK` is what the run's pages satisfy, which is what the action that closes the run
needs; `WindowOK` says the scratch window maps the frame of the page at hand, so the
comparison for a shareable page reads the page's own frame. Every flush is one of the merge
actions and keeps the invariant (`Inv.toZero`, `Inv.publish`, `Inv.join`), and it touches only
pages before the current one, so the facts about the current page survive it.
-/

namespace SbllMalloc.SharedHeap

variable {cfg : Config} {n : Nat} {A : Pass} {s : Node} {q : Nat}

/-- The scratch window maps the frame of page `pNext` at byte `index`, and `index` stays a
multiple of `PAGE_SIZE` inside the window. -/
structure WindowOK (cfg : Config) (L : MergeLoop) (pNext : Nat) : Prop where
  dvd : cfg.pageSize ∣ L.index
  le : L.index ≤ mmapBufferSize
  buf : L.index ≠ 0 → L.mmapBuffer.map (· + L.index / cfg.pageSize) = some pNext

/-- The first page of the open run. -/
def Run.start : Run → Option Nat
  | .none => Option.none
  | .zero a | .moveable a | .shareable a => some a

/-- What a page of a run of each kind is: a private page of zeros, a private page nobody holds,
or a private page equal to a frame other siblings hold. -/
def RunPage (cfg : Config) (p : Proc) (shm : Shm) (j : Nat) : Run → Prop
  | .none => True
  | .zero _ => p.Priv shm.sharingProcessesInfo j ∧
      ∀ c, (p.mem j).content shm.frames = some c → ∀ o < cfg.pageSize, c o = 0
  | .moveable _ => p.Priv shm.sharingProcessesInfo j ∧ shm.sharingProcessesInfo j = 0
  | .shareable _ => p.Priv shm.sharingProcessesInfo j ∧ 0 < pop (shm.sharingProcessesInfo j) ∧
      ∀ c, (p.mem j).content shm.frames = some c → ∀ o < cfg.pageSize, shm.frames j o = c o

/-- The pages of the open run, from its start up to `stop`, are what the action that closes it
needs. -/
def RunOK (cfg : Config) (L : MergeLoop) (stop : Nat) : Prop :=
  ∀ a, L.run.start = some a → a < stop ∧ ∀ j, InRange a (stop - a) j → RunPage cfg L.proc L.shm j L.run

theorem RunOK.of_none {L : MergeLoop} {stop : Nat} (h : L.run = .none) : RunOK cfg L stop :=
  fun a ha => by rw [h] at ha; exact absurd ha (by simp [Run.start])

/-- A page of the run's kind extends the run. -/
theorem RunOK.extend {L : MergeLoop} {p : Nat} (h : RunOK cfg L p)
    (hp : RunPage cfg L.proc L.shm p L.run) : RunOK cfg L (p + 1) := fun a ha => by
  obtain ⟨hap, hj⟩ := h a ha
  refine ⟨by omega, fun j hj' => ?_⟩
  by_cases hjp : j = p
  · subst hjp; exact hp
  · exact hj j ⟨hj'.1, by unfold InRange at hj'; omega⟩

/-- A run opened at page `p`. -/
theorem RunOK.start {L : MergeLoop} {p : Nat} {r : Run} (hr : r.start = some p)
    (hp : RunPage cfg L.proc L.shm p r) : RunOK cfg { L with run := r } (p + 1) := fun a ha => by
  rw [hr, Option.some.injEq] at ha; subst ha
  refine ⟨by omega, fun j hj => ?_⟩
  obtain rfl : j = p := by unfold InRange at hj; omega
  exact hp

/-! ## The scratch window -/

theorem keepWindow_ok {env : MapEnv} {L : MergeLoop} {p : Nat} (hsc : env.scratch p = true)
    (h : WindowOK cfg L p) :
    currPage cfg (keepWindow env L p) = some p ∧
    WindowOK cfg { keepWindow env L p with
      index := (keepWindow env L p).index + cfg.pageSize } (p + 1) := by
  have hps := cfg.pageSize_pos
  have hle : cfg.pageSize ≤ mmapBufferSize := Nat.le_of_dvd (by decide) cfg.pageSize_dvd
  by_cases hr : L.index = 0 ∨ L.index = mmapBufferSize
  · simp only [keepWindow, if_pos hr, hsc, if_true, currPage, Nat.zero_div, Nat.zero_add,
      if_pos hle, Option.map_some', add_zero]
    refine ⟨trivial, ⟨Nat.dvd_refl _, hle, fun _ => ?_⟩⟩
    simp [Nat.div_self hps]
  · push_neg at hr
    obtain ⟨k, hk⟩ := h.dvd
    obtain ⟨m, hm⟩ := cfg.pageSize_dvd
    have hkm : k < m := by
      refine lt_of_le_of_ne (Nat.le_of_mul_le_mul_left (by rw [← hk, ← hm]; exact h.le) hps) ?_
      rintro rfl; exact hr.2 (hk.trans hm.symm)
    have hlt : L.index + cfg.pageSize ≤ mmapBufferSize :=
      calc L.index + cfg.pageSize = cfg.pageSize * (k + 1) := by rw [hk, Nat.mul_succ]
        _ ≤ cfg.pageSize * m := Nat.mul_le_mul_left _ hkm
        _ = mmapBufferSize := hm.symm
    have hbuf := h.buf hr.1
    simp only [keepWindow, if_neg (not_or.2 hr), currPage, if_pos hlt, hbuf]
    refine ⟨trivial, ⟨Nat.dvd_add h.dvd (Nat.dvd_refl _), hlt, fun _ => ?_⟩⟩
    obtain ⟨w, hw, rfl⟩ := Option.map_eq_some'.1 hbuf
    simp [hw, Nat.add_div_right _ hps]; omega

theorem WindowOK.of_eq {L L' : MergeLoop} {p : Nat} (h : WindowOK cfg L p) (hi : L'.index = L.index)
    (hb : L'.mmapBuffer = L.mmapBuffer) : WindowOK cfg L' p := by
  obtain ⟨h1, h2, h3⟩ := h; exact ⟨hi ▸ h1, hi ▸ h2, by rw [hi, hb]; exact h3⟩

/-- Flushing keeps the scratch window. -/
theorem flush_window {env : MapEnv} {L L' : MergeLoop} {stop : Nat}
    (h : flush env cfg L stop = some L') : L'.index = L.index ∧ L'.mmapBuffer = L.mmapBuffer := by
  unfold flush at h
  split at h
  · cases h; exact ⟨rfl, rfl⟩
  · cases h; exact ⟨rfl, rfl⟩
  · obtain ⟨_, -, h⟩ := Option.bind_eq_some.1 h; cases h; exact ⟨rfl, rfl⟩
  · cases h; exact ⟨rfl, rfl⟩

/-- Classifying a page keeps the scratch window, on every branch. -/
theorem classify_window {env : MapEnv} {curr : Option Nat} {L L' : MergeLoop} {p : Nat}
    (h : classify env cfg curr L p = some L') : L'.index = L.index ∧ L'.mmapBuffer = L.mmapBuffer := by
  obtain ⟨c, hc, -⟩ := Option.bind_eq_some.1 h
  have hreopen : ∀ k : Run, ((flush env cfg L p).bind fun L₁ => some { L₁ with run := k }) =
      some L' → L'.index = L.index ∧ L'.mmapBuffer = L.mmapBuffer := fun k h => by
    obtain ⟨L₁, h₁, h⟩ := Option.bind_eq_some.1 h; cases h; exact (flush_window h₁ :)
  cases hz : comparePages cfg.pageSize c (L.shm.frames 0)
  · cases ho : isOtherSharing L.proc.myRank L.shm.sharingProcessesInfo p
    · rw [classify_moveable env cfg curr L hc hz ho] at h
      split at h
      · cases h; exact ⟨rfl, rfl⟩
      · exact hreopen _ h
    · rw [classify_shareable env cfg curr L hc hz ho] at h
      obtain ⟨L₁, h₁, h⟩ := Option.bind_eq_some.1 h
      have hw₁ : L₁.index = L.index ∧ L₁.mmapBuffer = L.mmapBuffer := by
        split at h₁
        · cases h₁; exact ⟨rfl, rfl⟩
        · exact flush_window h₁
      obtain ⟨f, -, h⟩ := Option.bind_eq_some.1 h
      obtain ⟨c', -, h⟩ := Option.bind_eq_some.1 h
      split_ifs at h
      · cases h; split <;> exact hw₁
      · obtain ⟨hi, hb⟩ := flush_window h; exact ⟨hi.trans hw₁.1, hb.trans hw₁.2⟩
  · rw [classify_zero env cfg curr L hc hz] at h
    split at h
    · cases h; exact ⟨rfl, rfl⟩
    · exact hreopen _ h

/-- One iteration moves the window on by one page, whatever the page is. -/
theorem mergeIter_window {env : MapEnv} {L L' : MergeLoop} {p : Nat}
    (h : mergeIter env cfg L p = some L') :
    L'.index = (keepWindow env L p).index + cfg.pageSize ∧
      L'.mmapBuffer = (keepWindow env L p).mmapBuffer := by
  dsimp only [mergeIter] at h
  split_ifs at h <;> first | exact flush_window h | exact classify_window h

/-- One iteration keeps the window right for the next page. -/
theorem WindowOK.iter {env : MapEnv} {L L' : MergeLoop} {p : Nat} (hsc : env.scratch p = true)
    (hW : WindowOK cfg L p) (h : mergeIter env cfg L p = some L') : WindowOK cfg L' (p + 1) :=
  (keepWindow_ok hsc hW).2.of_eq (mergeIter_window h).1 (mergeIter_window h).2

/-- When every scratch map succeeds, at each iteration of `MergeManyPages`, for page
`startAddr + k`, on every path through the loop before it, `curr_page_ptr` lies inside the
4 MiB window and reads frame `startAddr + k`: the comparison of the shareable branch reads the
page's own frame. -/
theorem mergeManyPages_scratch_window (env : MapEnv) (hsc : ∀ j, env.scratch j = true)
    (cfg : Config) (p : Proc) (shm : Shm) (startAddr : Nat) :
    ∀ (k : Nat) (L : MergeLoop),
      (List.range' startAddr k).foldlM (mergeIter env cfg) ⟨p, shm, .none, 0, none, 0⟩ = some L →
      currPage cfg (keepWindow env L (startAddr + k)) = some (startAddr + k) := by
  have hrun : ∀ (k : Nat) (L : MergeLoop),
      (List.range' startAddr k).foldlM (mergeIter env cfg) ⟨p, shm, .none, 0, none, 0⟩ = some L →
      WindowOK cfg L (startAddr + k) := by
    intro k
    induction k with
    | zero => intro L h; cases h; exact ⟨dvd_zero _, Nat.zero_le _, fun h => absurd rfl h⟩
    | succ k ih =>
      intro L h
      rw [List.range'_concat, List.foldlM_append] at h
      obtain ⟨L₁, h₁, h⟩ := Option.bind_eq_some.1 h
      simp only [List.foldlM_cons, List.foldlM_nil, Nat.one_mul] at h
      obtain ⟨L₂, h₂, h⟩ := Option.bind_eq_some.1 h
      cases h
      exact (ih L₁ h₁).iter (hsc _) h₂
  exact fun k L h => (keepWindow_ok (hsc _) (hrun k L h)).1

/-! ## Flushing the open run -/

/-- `FLUSH_OUTSTANDING_MERGES` keeps the invariant, closes the run, keeps the window, and changes
the sibling only on pages before `stop`. -/
theorem Inv.flushRun {L : MergeLoop} (hs : Inv cfg n A (s.setProc q L.proc L.shm)) (hq : q < n)
    {stop : Nat} (hrun : RunOK cfg L stop)
    (hmetric : L.proc.mergeMetric = .threshold ∨ L.proc.mergeMetric = .allocFrequency) :
    ∃ L', flush MapEnv.ok cfg L stop = some L' ∧ L'.run = .none ∧ L'.index = L.index ∧
      L'.mmapBuffer = L.mmapBuffer ∧ L'.proc.allocRecord = L.proc.allocRecord ∧
      Inv cfg n A (s.setProc q L'.proc L'.shm) ∧
      ∃ R : Finset Nat, (∀ j ∈ R, j < stop) ∧ Confined L.proc L.shm L'.proc L'.shm R := by
  obtain ⟨p, shm, run, index, buf, cnt⟩ := L
  have hne : p.mergeMetric ≠ .mergeDisabled := by rcases hmetric with h | h <;> rw [h] <;> simp
  have hR : ∀ a : Nat, ∀ j ∈ Finset.Ico a (a + (stop - a)), a < stop → j < stop := fun a j hj ha => by
    have := (Finset.mem_Ico.1 hj).2; omega
  cases run with
  | none => exact ⟨_, rfl, rfl, rfl, rfl, rfl, hs, ∅, by simp, (Moved.refl p shm).toConfined⟩
  | zero a =>
    obtain ⟨ha, hrun⟩ := hrun a rfl
    obtain ⟨hm, hI⟩ := Inv.toZero (s := s.setProc q p shm) hs hq (by simpa using hrun) (by simpa using hmetric)
    simp only [Node.setProc_self, Node.setProc_shm, Node.setProc_setProc] at hm hI
    refine ⟨⟨_, _, .none, index, buf, cnt + (stop - a)⟩, ?_, rfl, rfl, rfl, ?_, hI, _,
      fun j hj => hR a j hj ha, hm.toConfined⟩
    · simp only [flush, remapToZero_ok _ _ (Nat.sub_pos_of_lt ha)]
    · rfl
  | moveable a =>
    obtain ⟨ha, hrun⟩ := hrun a rfl
    obtain ⟨hm, hI⟩ := Inv.publish (s := s.setProc q p shm) hs hq (by simpa using hrun) (by simpa using hne)
    simp only [Node.setProc_self, Node.setProc_shm, Node.setProc_setProc] at hm hI
    refine ⟨⟨_, _, .none, index, buf, cnt⟩, ?_, rfl, rfl, rfl, ?_, hI, _,
      fun j hj => hR a j hj ha, hm.toConfined⟩
    · simp only [flush]
      rw [copyAndRemapRegion_ok _ _ _ fun j hj => ?_]
      · rfl
      obtain ⟨c, hc⟩ := Inv.priv_mem (s := s.setProc q p shm) hs hq (by simpa using (hrun j hj).1)
      simp only [Node.setProc_self] at hc
      simp [hc]
    · rfl
  | shareable a =>
    obtain ⟨ha, hrun⟩ := hrun a rfl
    obtain ⟨hm, hI⟩ := Inv.join (s := s.setProc q p shm) hs hq (by simpa using hrun) (by simpa using hne)
    simp only [Node.setProc_self, Node.setProc_shm, Node.setProc_setProc] at hm hI
    refine ⟨⟨_, _, .none, index, buf, cnt + (stop - a)⟩, ?_, rfl, rfl, rfl, ?_, hI, _,
      fun j hj => hR a j hj ha, hm.toConfined⟩
    · simp only [flush, remapRegion_ok]
    · rfl

/-! ## One iteration -/

/-- What holds before the iteration for page `pNext` of a merge of a region of sibling `q`. -/
structure LoopInv (cfg : Config) (n : Nat) (A : Pass) (s : Node) (q : Nat) (L : MergeLoop)
    (pNext : Nat) : Prop where
  inv : Inv cfg n A (s.setProc q L.proc L.shm)
  alloc : L.proc.allocRecord = (s.procs q).allocRecord
  metric : L.proc.mergeMetric = (s.procs q).mergeMetric
  window : WindowOK cfg L pNext
  run : RunOK cfg L pNext

theorem keepWindow_proc (env : MapEnv) (L : MergeLoop) (p : Nat) :
    (keepWindow env L p).proc = L.proc ∧ (keepWindow env L p).shm = L.shm ∧
      (keepWindow env L p).run = L.run := by
  unfold keepWindow; split_ifs <;> exact ⟨rfl, rfl, rfl⟩

theorem RunOK.of_eq {L L' : MergeLoop} {stop : Nat} (h : RunOK cfg L stop) (hp : L'.proc = L.proc)
    (hs : L'.shm = L.shm) (hr : L'.run = L.run) : RunOK cfg L' stop := by
  unfold RunOK at h ⊢; rw [hp, hs, hr]; exact h

theorem flush_none (env : MapEnv) {L : MergeLoop} (h : L.run = .none) (stop : Nat) :
    flush env cfg L stop = some L := by
  simp [flush, h]

theorem Confined.priv {p p' : Proc} {shm shm' : Shm} {R : Finset Nat} (hc : Confined p shm p' shm' R)
    {j : Nat} (hj : j ∉ R) (h : p.Priv shm.sharingProcessesInfo j) :
    p'.Priv shm'.sharingProcessesInfo j :=
  ⟨(hc.live j hj).2 h.1, (hc.init j hj).trans h.2.1, (hc.zero j hj).trans h.2.2.1,
    (hc.held hj).trans h.2.2.2⟩

/-- Closing the open run at page `p`, from a loop state that agrees with `L` on the sibling and
the file, gives the loop invariant at `p + 1` with no run open; the flush touched only pages
before `p`. -/
theorem LoopInv.close {L L₀ : MergeLoop} {p : Nat} (h : LoopInv cfg n A s q L p) (hq : q < n)
    (hmetric : (s.procs q).mergeMetric = .threshold ∨ (s.procs q).mergeMetric = .allocFrequency)
    (hp₀ : L₀.proc = L.proc) (hs₀ : L₀.shm = L.shm) (hW₀ : WindowOK cfg L₀ (p + 1))
    (hrun₀ : RunOK cfg L₀ p) :
    ∃ L', flush MapEnv.ok cfg L₀ p = some L' ∧ L'.run = .none ∧ LoopInv cfg n A s q L' (p + 1) ∧
      ∃ R : Finset Nat, (∀ j ∈ R, j < p) ∧ Confined L.proc L.shm L'.proc L'.shm R := by
  obtain ⟨L', hf, hr, hi, hb, ha, hI, R, hR, hc⟩ :=
    Inv.flushRun (s := s) (by rw [hp₀, hs₀]; exact h.inv) hq hrun₀ (by rw [hp₀, h.metric]; exact hmetric)
  rw [hp₀, hs₀] at hc
  exact ⟨L', hf, hr, ⟨hI, ha.trans (hp₀ ▸ h.alloc), hc.metric.trans h.metric, hW₀.of_eq hi hb,
    RunOK.of_none hr⟩, R, hR, hc⟩

/-- One iteration of `MergeManyPages` on a page of the region keeps the loop invariant. -/
theorem LoopInv.iter {L : MergeLoop} {p : Nat} (h : LoopInv cfg n A s q L p) (hq : q < n)
    (hmetric : (s.procs q).mergeMetric = .threshold ∨ (s.procs q).mergeMetric = .allocFrequency)
    (hl : (s.procs q).Live p) :
    ∃ L', mergeIter MapEnv.ok cfg L p = some L' ∧ LoopInv cfg n A s q L' (p + 1) := by
  obtain ⟨hcur, hW⟩ := keepWindow_ok (show MapEnv.ok.scratch p = true from rfl) h.window
  obtain ⟨hp, hsh, hrn⟩ := keepWindow_proc MapEnv.ok L p
  simp only [mergeIter, hcur]
  set L₂ : MergeLoop := ⟨(keepWindow MapEnv.ok L p).proc, (keepWindow MapEnv.ok L p).shm,
    (keepWindow MapEnv.ok L p).run, (keepWindow MapEnv.ok L p).index + cfg.pageSize,
    (keepWindow MapEnv.ok L p).mmapBuffer, (keepWindow MapEnv.ok L p).counterPagesMerged⟩ with hL₂
  replace hW : WindowOK cfg L₂ (p + 1) := hW
  have hp₂ : L₂.proc = L.proc := hp
  have hs₂ : L₂.shm = L.shm := hsh
  have hr₂ : L₂.run = L.run := hrn
  have hI₂ : Inv cfg n A (s.setProc q L₂.proc L₂.shm) := by rw [hp₂, hs₂]; exact h.inv
  rw [show (keepWindow MapEnv.ok L p).proc = L₂.proc from rfl,
    show (keepWindow MapEnv.ok L p).shm = L₂.shm from rfl, getSharingBit_eq]
  have hrun₂ : RunOK cfg L₂ p := h.run.of_eq hp₂ hs₂ hr₂
  have hlL : L.proc.Live p := by unfold Proc.Live; rw [h.alloc]; exact hl
  obtain ⟨L', hf, hr', hL', R, hR, hc⟩ := h.close hq hmetric hp₂ hs₂ hW hrun₂
  have hpR : p ∉ R := fun hp => absurd (hR p hp) (lt_irrefl p)
  by_cases hpriv : L.proc.Priv L.shm.sharingProcessesInfo p
  swap
  · -- an uninitialized, zero or held page closes the run
    refine ⟨L', ?_, hL'⟩
    split_ifs with c₁ c₂ c₃ <;> try exact hf
    refine absurd ⟨hlL, ?_, ?_, ?_⟩ hpriv
    · simpa [hp] using c₁
    · simpa [hp] using c₂
    · simpa [Proc.Held, hp, hsh] using c₃
  -- a private page is classified
  obtain ⟨c, hcm⟩ := Inv.priv_mem (s := s.setProc q L.proc L.shm) h.inv hq (by simpa using hpriv)
  simp only [Node.setProc_self] at hcm
  obtain ⟨-, h1, h2, h3⟩ := hpriv
  have hc₂ : (L₂.proc.mem p).content L₂.shm.frames = some c := by rw [hp₂, hs₂, hcm]; rfl
  have hc' : (L'.proc.mem p).content L'.shm.frames = some c := by rw [hc.mem p hpR, hcm]; rfl
  have hpriv' : L'.proc.Priv L'.shm.sharingProcessesInfo p := hc.priv hpR ⟨hlL, h1, h2, h3⟩
  rw [if_neg (by simp [hp, h1]), if_neg (by simp [hp, h2]),
    if_neg (by simpa [Proc.Held, hp, hsh] using h3)]
  -- the run goes on with page `p`, or a new run opens at `p` after the flush
  have hgo : ∀ r : Run, L.run = r → RunPage cfg L.proc L.shm p r → LoopInv cfg n A s q L₂ (p + 1) :=
    fun r hr hpage => ⟨hI₂, hp₂ ▸ h.alloc, hp₂ ▸ h.metric, hW,
      hrun₂.extend (by rw [hp₂, hs₂, hr₂, hr]; exact hpage)⟩
  have hopen : ∀ r : Run, r.start = some p → RunPage cfg L'.proc L'.shm p r →
      LoopInv cfg n A s q { L' with run := r } (p + 1) :=
    fun r hr hpage => ⟨hL'.inv, hL'.alloc, hL'.metric, hL'.window.of_eq rfl rfl, RunOK.start hr hpage⟩
  have hcc : ∀ c₀, (L.proc.mem p).content L.shm.frames = some c₀ → c₀ = c := fun c₀ h₀ => by
    rw [hcm] at h₀; exact (Option.some.inj h₀).symm
  have hcc' : ∀ c₀, (L'.proc.mem p).content L'.shm.frames = some c₀ → c₀ = c := fun c₀ h₀ => by
    rw [hc'] at h₀; exact (Option.some.inj h₀).symm
  by_cases hz : comparePages cfg.pageSize c (L.shm.frames 0) = true
  · -- a page of zeros
    have hzero : ∀ o < cfg.pageSize, c o = 0 := fun o ho => by
      rw [comparePages_iff.1 hz o ho]
      exact (by simpa using h.inv.frame0 o ho : L.shm.frames 0 o = 0)
    rw [classify_zero _ _ _ _ hc₂ (by rw [hs₂]; exact hz), hr₂]
    cases hr : L.run with
    | zero a => exact ⟨L₂, rfl, hgo _ hr ⟨⟨hlL, h1, h2, h3⟩, fun c₀ h₀ => hcc c₀ h₀ ▸ hzero⟩⟩
    | _ =>
      rw [hf, Option.some_bind]
      exact ⟨_, rfl, hopen (.zero p) rfl ⟨hpriv', fun c₀ h₀ => hcc' c₀ h₀ ▸ hzero⟩⟩
  have hz₂ : comparePages cfg.pageSize c (L₂.shm.frames 0) = false := by
    rw [hs₂]; simpa using hz
  have hr64 : L.proc.myRank < 64 := by
    have := h.inv.rank_lt q hq; have := cfg.numProc_le; simp at *; omega
  have h64 : L.shm.sharingProcessesInfo p < 2 ^ 64 :=
    (by simpa using h.inv.entries p : L.shm.sharingProcessesInfo p < 2 ^ cfg.numProc).trans_le
      (Nat.pow_le_pow_right (by norm_num) cfg.numProc_le)
  cases ho : isOtherSharing L.proc.myRank L.shm.sharingProcessesInfo p
  · -- a page nobody else holds
    have hi0 := eq_zero_of_not_isOtherSharing hr64 h64 (by simpa [Proc.Held] using h3) ho
    rw [classify_moveable _ _ _ _ hc₂ hz₂ (by rw [hp₂, hs₂]; exact ho), hr₂]
    cases hr : L.run with
    | moveable a => exact ⟨L₂, rfl, hgo _ hr ⟨⟨hlL, h1, h2, h3⟩, hi0⟩⟩
    | _ =>
      rw [hf, Option.some_bind]
      exact ⟨_, rfl, hopen (.moveable p) rfl ⟨hpriv', (hc.info p hpR).trans hi0⟩⟩
  · -- a page whose frame other siblings hold: compare it with the frame
    have hpos := pop_pos_of_isOtherSharing hr64 h64 ho
    rw [classify_shareable _ _ _ _ hc₂ hz₂ (by rw [hp₂, hs₂]; exact ho), hr₂]
    cases hr : L.run with
    | shareable a =>
      simp only [Option.some_bind, hc₂]
      cases heq : comparePages cfg.pageSize (L₂.shm.frames p) c
      · exact ⟨L', hf, hL'⟩
      · refine ⟨L₂, by simp [hrn, hr], hgo _ hr ⟨⟨hlL, h1, h2, h3⟩, hpos, fun c₀ h₀ o ho => ?_⟩⟩
        rw [hcc c₀ h₀, ← hs₂]; exact comparePages_iff.1 heq o ho
    | _ =>
      simp only [hf, Option.some_bind, hc']
      cases heq : comparePages cfg.pageSize (L'.shm.frames p) c
      · exact ⟨L', flush_none _ hr' p, hL'⟩
      · refine ⟨_, by simp [hr'], hopen (.shareable p) rfl
          ⟨hpriv', (hc.info p hpR) ▸ hpos, fun c₀ h₀ o ho => ?_⟩⟩
        rw [hcc' c₀ h₀]; exact comparePages_iff.1 heq o ho

/-! ## The whole pass -/

/-- The loop of `MergeManyPages` over pages of the region keeps the loop invariant. -/
theorem LoopInv.loop (hq : q < n)
    (hmetric : (s.procs q).mergeMetric = .threshold ∨ (s.procs q).mergeMetric = .allocFrequency) :
    ∀ (k p : Nat) (L : MergeLoop), LoopInv cfg n A s q L p →
      (∀ j, InRange p k j → (s.procs q).Live j) →
      ∃ L', (List.range' p k).foldlM (mergeIter MapEnv.ok cfg) L = some L' ∧
        LoopInv cfg n A s q L' (p + k)
  | 0, p, L, h, _ => ⟨L, rfl, h⟩
  | k + 1, p, L, h, hl => by
    obtain ⟨L₁, h₁, hL₁⟩ := h.iter hq hmetric (hl p ⟨le_refl p, by omega⟩)
    obtain ⟨L₂, h₂, hL₂⟩ := LoopInv.loop hq hmetric k (p + 1) L₁ hL₁ fun j hj =>
      hl j ⟨by unfold InRange at hj; omega, by unfold InRange at hj; omega⟩
    refine ⟨L₂, ?_, by rwa [show p + (k + 1) = p + 1 + k by omega]⟩
    rw [List.range'_succ, List.foldlM_cons, h₁, Option.bind_eq_bind, Option.some_bind]
    exact h₂

/-- `MergeManyPages` over a region of the sibling keeps the invariant and the regions. -/
theorem Inv.manyPages (hs : Inv cfg n A s) (hq : q < n)
    (hmetric : (s.procs q).mergeMetric = .threshold ∨ (s.procs q).mergeMetric = .allocFrequency)
    {key size : Nat} (hl : ∀ j, InRange key size j → (s.procs q).Live j) :
    ∃ p' shm' cnt, mergeManyPages MapEnv.ok cfg (s.procs q) s.shm key size = some (p', shm', cnt) ∧
      Inv cfg n A (s.setProc q p' shm') ∧ p'.allocRecord = (s.procs q).allocRecord := by
  have h₀ : LoopInv cfg n A s q ⟨s.procs q, s.shm, .none, 0, none, 0⟩ key :=
    ⟨by simpa using hs, rfl, rfl, ⟨dvd_zero _, Nat.zero_le _, fun h => absurd rfl h⟩,
      RunOK.of_none rfl⟩
  obtain ⟨L, hL, hI⟩ := LoopInv.loop hq hmetric size key _ h₀ hl
  obtain ⟨L', hf, -, -, -, ha, hI', -⟩ := Inv.flushRun hI.inv hq hI.run (by rw [hI.metric]; exact hmetric)
  refine ⟨L'.proc, L'.shm, L'.counterPagesMerged, ?_, hI', ha.trans hI.alloc⟩
  simp only [mergeManyPages, hL, hf, Option.bind_eq_bind, Option.some_bind]

/-- A flag no part of the invariant reads. -/
theorem Inv.setDirty (hs : Inv cfg n A s) (hq : q < n) (d : Nat → Bool) :
    Inv cfg n A (s.setProc q { s.procs q with dirty := d } s.shm) :=
  hs.step_update hq (R := ∅) (.of_bits ⟨rfl, rfl, rfl, fun _ _ _ => rfl, fun _ _ => Iff.rfl,
      fun _ _ => rfl, fun _ _ => rfl, fun _ _ => rfl, fun _ _ => rfl⟩
      (by simp) (by simp) (by simp) rfl rfl rfl rfl)
    (by simp) hs.entries (fun _ _ _ h => absurd rfl h) (hs.sib q hq).regions (by simp) (by simp)
    (by simp) (fun _ _ _ => ⟨rfl, rfl⟩) ⟨(hs.refines q hq).regions, (hs.refines q hq).bytes⟩

/-- `MergeNode2` on a region of the sibling under `THRESHOLD` or `ALLOC_FREQUENCY`. -/
theorem Inv.mergeNode (hs : Inv cfg n A s) {key : Nat} (he : Enabled cfg n s (.mergeNode q key))
    {s' : Node} (h : step MapEnv.ok cfg s (.mergeNode q key) = some s') :
    Inv cfg n (A.step cfg (.mergeNode q key)) s' := by
  obtain ⟨hq, hmetric, hkey⟩ := he
  simp only [Pass.step, step, mergeNode2] at h ⊢
  obtain ⟨size, hsize⟩ := Option.isSome_iff_exists.1 hkey
  rw [hsize] at h
  by_cases hd : (s.procs q).dirty key = true
  · obtain ⟨p', shm', cnt, hm, hI, -⟩ := hs.manyPages hq hmetric fun j hj => ⟨key, size, hsize, hj⟩
    simp only [hd, if_true, hm, Option.bind_eq_bind, Option.some_bind, Option.some.injEq] at h
    subst h
    simpa using (hI.setDirty (s := s.setProc q p' shm') hq (Function.update p'.dirty key false))
  · simp only [hd, Bool.false_eq_true, if_false, Option.bind_eq_bind, Option.some_bind,
      Option.some.injEq] at h
    subst h; simpa using hs

end SbllMalloc.SharedHeap
