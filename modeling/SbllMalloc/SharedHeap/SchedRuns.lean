import SbllMalloc.SharedHeap.ControlRuns

/-!
# Runs under the merge controllers, over time

`SRun` is an infinite run of the node under the controllers. It starts from a state the
controllers reach, and at each instant either one enabled event runs or no sibling moves, so every
finite execution is the beginning of a run. Two properties need the whole run rather than one
state.

* The high-water mark of `MergeByTHRESHOLD` (`SRun.threshold_mark`). `mergeMinMemTh` never falls
  below `MIN_MEM_TH` megabytes of pages. It changes only when the countdown lets a traversal
  through, which happens only once the node's private and shared page count has reached it, and
  then the count becomes the new mark, which never decreases (`SRun.mark_mono`).
* Passes end (`SRun.pass_finishes`). A sibling's pending call moves only when that sibling is
  scheduled, and each resume shortens what is left of it (`Work.remaining`). The sibling's own
  calls wait until it is done. So in a run that keeps scheduling the sibling while it has work
  pending, the call returns, whatever the other siblings do meanwhile.

Between two instants, an event moves its own sibling only and takes node actions of that sibling
only (`schedStep_set`), so no sibling's event changes a byte another sibling reads
(`SReachable.isolation`), although a merge maps pages of several siblings onto one frame.
-/

namespace SbllMalloc.SharedHeap

/-- One instant of a run: an enabled event, or no sibling moves. -/
def SStep (cfg : Config) (k : Knobs) (n : Nat) (ss : Sched) : Option Event → Sched → Prop
  | none, ss' => ss' = ss
  | some ev, ss' =>
    SEnabled cfg n ss ev ∧ ∃ as, schedStep MapEnv.ok cfg k ss ev = some (ss', as)

/-- An infinite run under the controllers, from a state they reach. -/
structure SRun (cfg : Config) (k : Knobs) (n : Nat) (rank : Nat → Nat)
    (metric : Nat → MergeMetric) where
  state : Nat → Sched
  event : Nat → Option Event
  start : ∃ acts, SReachable cfg k n rank metric acts (state 0)
  step : ∀ t, SStep cfg k n (state t) (event t) (state (t + 1))

/-- `*allProcPrivatePageCount + *sharedPageCount`, the node's pages as `MergeByTHRESHOLD` reads
them. -/
def Sched.footprint (ss : Sched) : Int :=
  ss.node.shm.allProcPrivatePageCount + ss.node.shm.sharedPageCount

/-- `MergeByTHRESHOLD` of sibling `q` lets its traversal run at instant `t`. -/
def SRun.thresholdStart {cfg : Config} {k : Knobs} {n : Nat} {rank : Nat → Nat}
    {metric : Nat → MergeMetric} (run : SRun cfg k n rank metric) (q t : Nat) : Bool :=
  (run.state t).work q == .thresholdTest && ((run.state (t + 1)).work q).inThreshold

/-- The scheduler runs sibling `q` again whenever it has a call pending. -/
def SRun.FairTo {cfg : Config} {k : Knobs} {n : Nat} {rank : Nat → Nat}
    {metric : Nat → MergeMetric} (run : SRun cfg k n rank metric) (q : Nat) : Prop :=
  ∀ t, (run.state t).work q ≠ .idle →
    ∃ u, t ≤ u ∧ ∃ base, run.event u = some (.resume q base)

/-- A bound on the resumes a pending call still takes. -/
def Work.remaining (cfg : Config) : Work → Nat
  | .idle => 0
  | .thresholdTest => cfg.heapPages + 2
  | .threshold keys => keys.length + 1
  | .allocFrequency keys _ => keys.length + 1
  | .buffered pages _ => pages.length + 1

/-! ## What one event does to a sibling's statics -/

/-- What a step does to the `mergeMinMemTh` of a sibling that moves to statics `c` and work `w`:
the countdown of `MergeByTHRESHOLD`, when it lets a traversal through, makes the node's pages the
new mark, which they have reached; nothing else changes it. -/
def MarkMove (ss : Sched) (q : Nat) (c : Ctl) (w : Work) : Prop :=
  if ss.work q = .thresholdTest ∧ w.inThreshold = true then
    (ss.ctl q).mergeMinMemTh ≤ ss.footprint ∧ c.mergeMinMemTh = ss.footprint
  else c.mergeMinMemTh = (ss.ctl q).mergeMinMemTh

section Mark

variable {ss ss' : Sched} {q : Nat} {c : Ctl} {w : Work}

theorem MarkMove.keep (hc : c.mergeMinMemTh = (ss.ctl q).mergeMinMemTh)
    (hw : ss.work q = .thresholdTest → w.inThreshold = false) : MarkMove ss q c w := by
  unfold MarkMove
  split_ifs with h
  · simp [hw h.1] at h
  · exact hc

theorem MarkMove.tick (hw : ss.work q = .thresholdTest) (keys : List Nat) :
    MarkMove ss q ((ss.ctl q).tickThreshold ss.node.shm).1
      (if ((ss.ctl q).tickThreshold ss.node.shm).2 then .threshold keys else .idle) := by
  simp only [MarkMove, Ctl.tickThreshold, hw, true_and, Sched.footprint]
  split_ifs <;> simp_all [Work.inThreshold]

theorem Ctl.push_mergeMinMemTh {c c' : Ctl} {i : Nat} (h : c.push i = some c') :
    c'.mergeMinMemTh = c.mergeMinMemTh := by
  unfold Ctl.push at h
  split_ifs at h
  cases h; rfl

theorem Sched.hold_spec {ss ss' : Sched} {q : Nat} {c : Ctl} {w : Work} {as : List Action}
    (h : ss.hold q c w = some (ss', as)) : ss' = ss.set q ss.node c w ∧ ∀ a ∈ as, a.sibling = q := by
  obtain ⟨h1, rfl⟩ := Prod.mk.inj (Option.some.inj h)
  exact ⟨h1.symm, by simp⟩

theorem Sched.act_spec {env : MapEnv} {cfg : Config} {ss ss' : Sched} {q : Nat} {a : Action}
    {c : Ctl} {w : Work} {as : List Action} (h : ss.act env cfg q a c w = some (ss', as))
    (ha : a.sibling = q) :
    ∃ s, ss' = ss.set q s c w ∧ ∀ a' ∈ as, a'.sibling = q := by
  simp only [Sched.act, Option.map_eq_some'] at h
  obtain ⟨s, -, h⟩ := h
  obtain ⟨h1, rfl⟩ := Prod.mk.inj h
  exact ⟨s, h1.symm, by simpa using ha⟩

theorem Sched.hold_moves {as : List Action} (h : ss.hold q c w = some (ss', as))
    (hm : MarkMove ss q c w) :
    ∃ s c w, ss' = ss.set q s c w ∧ MarkMove ss q c w ∧ ∀ a ∈ as, a.sibling = q :=
  let ⟨h₁, has⟩ := Sched.hold_spec h
  ⟨_, _, _, h₁, hm, has⟩

theorem Sched.act_moves {env : MapEnv} {cfg : Config} {a : Action} {as : List Action}
    (h : ss.act env cfg q a c w = some (ss', as)) (ha : a.sibling = q) (hm : MarkMove ss q c w) :
    ∃ s c w, ss' = ss.set q s c w ∧ MarkMove ss q c w ∧ ∀ a ∈ as, a.sibling = q :=
  let ⟨_, h₁, has⟩ := Sched.act_spec h ha
  ⟨_, _, _, h₁, hm, has⟩

/-- An event moves its own sibling only, takes node actions of that sibling only, and changes its
mark as `MarkMove` says. -/
theorem schedStep_set {env : MapEnv} {cfg : Config} {k : Knobs} {ev : Event} {as : List Action}
    (h : schedStep env cfg k ss ev = some (ss', as)) :
    ∃ s c w, ss' = ss.set ev.sibling s c w ∧ MarkMove ss ev.sibling c w ∧
      ∀ a ∈ as, a.sibling = ev.sibling := by
  cases ev with
  | malloc q sz base =>
    simp only [schedStep, Ctl.tickMalloc] at h
    split_ifs at h
    · exact Sched.hold_moves h (.keep rfl fun _ => rfl)
    all_goals exact Sched.act_moves h rfl (.keep rfl fun _ => rfl)
  | free q ptr => exact Sched.act_moves h rfl (.keep rfl fun _ => rfl)
  | store q i o v => exact Sched.act_moves h rfl (.keep rfl fun _ => rfl)
  | fault q i =>
    simp only [schedStep] at h
    split at h
    · split_ifs at h
      · exact Sched.hold_moves h (.keep rfl fun _ => rfl)
      · obtain ⟨c', hc', h⟩ := Option.bind_eq_some.1 h
        exact Sched.act_moves h rfl (.keep (Ctl.push_mergeMinMemTh hc') fun _ => rfl)
    all_goals exact Sched.act_moves h rfl (.keep rfl fun _ => rfl)
  | resume q base =>
    simp only [schedStep] at h
    split at h
    · cases h
    · -- the countdown of `MergeByTHRESHOLD`
      exact Sched.hold_moves h (.tick (by assumption) _)
    · exact Sched.hold_moves h (.keep rfl fun _ => rfl)
    · rename_i hw
      exact Sched.act_moves h rfl (.keep rfl fun h' => Work.noConfusion (hw.symm.trans h'))
    · exact Sched.act_moves h rfl (.keep rfl fun _ => rfl)
    · exact Sched.act_moves h rfl (.keep rfl fun _ => rfl)
    · obtain ⟨c', hc', h⟩ := Option.bind_eq_some.1 h
      have hm := Ctl.push_mergeMinMemTh hc'
      exact Sched.act_moves h rfl (.keep hm fun _ => rfl)
    · split_ifs at h
      · exact Sched.act_moves h rfl (.keep rfl fun _ => rfl)
      · exact Sched.hold_moves h (.keep rfl fun _ => rfl)

/-- Every sibling's mark after an event. -/
theorem schedStep_markMove {env : MapEnv} {cfg : Config} {k : Knobs} {ev : Event}
    {as : List Action} (h : schedStep env cfg k ss ev = some (ss', as)) (q : Nat) :
    MarkMove ss q (ss'.ctl q) (ss'.work q) := by
  obtain ⟨s, c, w, rfl, hm, -⟩ := schedStep_set h
  rcases eq_or_ne q ev.sibling with rfl | hne
  · simpa using hm
  · rw [Sched.set_ctl_other _ _ _ _ hne, Sched.set_work_other _ _ _ _ hne]
    exact .keep rfl fun h' => by rw [h']; rfl

theorem MarkMove.le (h : MarkMove ss q c w) : (ss.ctl q).mergeMinMemTh ≤ c.mergeMinMemTh := by
  unfold MarkMove at h
  split_ifs at h
  · exact h.2 ▸ h.1
  · exact h.ge

end Mark

section Runs

variable {cfg : Config} {k : Knobs} {n : Nat} {rank : Nat → Nat} {metric : Nat → MergeMetric}

theorem SStep.markMove {ss ss' : Sched} {e : Option Event} (h : SStep cfg k n ss e ss') (q : Nat) :
    MarkMove ss q (ss'.ctl q) (ss'.work q) := by
  cases e with
  | none => cases h; exact .keep rfl fun h' => by rw [h']; rfl
  | some ev => obtain ⟨-, as, h⟩ := h; exact schedStep_markMove h q

/-- `CheckEnv` scales `MIN_MEM_TH` to pages, and no event lowers the mark. -/
theorem SReachable.minMemPages_le {acts : List Action} {ss : Sched}
    (h : SReachable cfg k n rank metric acts ss) (q : Nat) :
    k.minMemPages cfg ≤ (ss.ctl q).mergeMinMemTh := by
  induction h with
  | init => exact le_rfl
  | step ev _ _ hstep ih => exact ih.trans (schedStep_markMove hstep q).le

theorem SRun.mark_mono (run : SRun cfg k n rank metric) (q : Nat) {t u : Nat} (htu : t ≤ u) :
    ((run.state t).ctl q).mergeMinMemTh ≤ ((run.state u).ctl q).mergeMinMemTh := by
  induction htu with
  | refl => exact le_rfl
  | step _ ih => exact ih.trans ((run.step _).markMove q).le

theorem SRun.markMove_start (run : SRun cfg k n rank metric) (q t : Nat) :
    MarkMove (run.state t) q ((run.state (t + 1)).ctl q) ((run.state (t + 1)).work q) =
      if run.thresholdStart q t then
        ((run.state t).ctl q).mergeMinMemTh ≤ (run.state t).footprint ∧
          ((run.state (t + 1)).ctl q).mergeMinMemTh = (run.state t).footprint
      else ((run.state (t + 1)).ctl q).mergeMinMemTh = ((run.state t).ctl q).mergeMinMemTh := by
  simp only [MarkMove, SRun.thresholdStart, Bool.and_eq_true, beq_iff_eq]

/-- Sibling `0` of two allocates a page and faults on it under `THRESHOLD`; the run starts with
`MergeByTHRESHOLD` pending, resumes it once and then stutters. -/
theorem storeProgram_srun :
    ∃ run : SRun Config.page4k Knobs.default 2 id (fun _ => .threshold),
      (run.state 0).work 0 = .thresholdTest ∧ run.FairTo 0 ∧ (run.state 1).work 0 = .idle := by
  have h₀ : SReachable Config.page4k Knobs.default 2 id (fun _ => .threshold) [] _ := .init
  have h₁ :=
    h₀.step (.malloc 0 4096 1) ⟨rfl, by decide, le_rfl, by decide, fun _ _ => rfl⟩ rfl
  obtain ⟨ss, h, hw, ss', as, hstep, hw'⟩ : ∃ ss,
      SReachable Config.page4k Knobs.default 2 id (fun _ => .threshold) _ ss ∧
        ss.work 0 = .thresholdTest ∧ ∃ ss' as,
          schedStep MapEnv.ok Config.page4k Knobs.default ss (.resume 0 0) = some (ss', as) ∧
            ss'.work 0 = .idle :=
    ⟨_, h₁.step (.fault 0 1) ⟨rfl, by decide, rfl⟩ rfl, rfl, _, _, rfl, rfl⟩
  refine ⟨{ state := fun t => if t = 0 then ss else ss'
            event := fun t => if t = 0 then some (.resume 0 0) else none
            start := ⟨_, h⟩
            step := fun t => ?_ }, hw, fun t ht => ?_, hw'⟩
  · rcases t with _ | t
    · exact ⟨⟨by decide, by simp [hw], fun sz h' => by simp [hw] at h'⟩, as, hstep⟩
    · rfl
  · rcases t with _ | t
    · exact ⟨0, le_rfl, 0, rfl⟩
    · exact absurd hw' ht

/-- `THRESHOLD`: in every run, each sibling's `mergeMinMemTh` is at least `MIN_MEM_TH` megabytes
of pages; it changes only at an instant where `MergeByTHRESHOLD` lets a traversal run, which it
does only once the node's private and shared pages have reached the mark, and the mark becomes
that page count. -/
theorem SRun.threshold_mark (run : SRun cfg k n rank metric) (q t : Nat) :
    k.minMemPages cfg ≤ ((run.state t).ctl q).mergeMinMemTh ∧
      ((run.state (t + 1)).ctl q).mergeMinMemTh =
        (if run.thresholdStart q t then (run.state t).footprint
          else ((run.state t).ctl q).mergeMinMemTh) ∧
      (run.thresholdStart q t = true →
        ((run.state t).ctl q).mergeMinMemTh ≤ (run.state t).footprint) := by
  obtain ⟨acts, h⟩ := run.start
  have hm := (run.step t).markMove q
  rw [run.markMove_start] at hm
  refine ⟨(h.minMemPages_le q).trans (run.mark_mono q (Nat.zero_le t)), ?_, fun hs => ?_⟩
  · split_ifs at hm ⊢
    exacts [hm.2, hm]
  · rw [if_pos hs] at hm
    exact hm.1

theorem threshold_mark_storeProgram :
    ∃ run : SRun Config.page4k Knobs.default 2 id (fun _ => .threshold),
      ((run.state 1).ctl 0).mergeMinMemTh = ((run.state 0).ctl 0).mergeMinMemTh := by
  obtain ⟨run, -, -, hw'⟩ := storeProgram_srun
  have hs : run.thresholdStart 0 0 = false := by simp [SRun.thresholdStart, hw', Work.inThreshold]
  exact ⟨run, (SRun.threshold_mark run 0 0).2.1.trans (by rw [hs]; rfl)⟩

/-! ## Passes end -/

theorem regionKeys_length_le (cfg : Config) (p : Proc) :
    (regionKeys cfg p).length ≤ cfg.heapPages :=
  (List.length_filter_le _ _).trans (List.length_range _).le

/-- A resume shortens the sibling's pending call. -/
theorem schedStep_resume_remaining {env : MapEnv} {ss ss' : Sched} {q base : Nat}
    {as : List Action} (h : schedStep env cfg k ss (.resume q base) = some (ss', as)) :
    (ss'.work q).remaining cfg < (ss.work q).remaining cfg := by
  have hset : ∀ {s c w}, ss' = ss.set q s c w → ss'.work q = w :=
    fun h => h ▸ ss.set_work_self _ _ _ _
  simp only [schedStep] at h
  split at h <;> rename_i hw <;> rw [hw]
  · cases h
  · rw [hset (Sched.hold_spec h).1]
    have := regionKeys_length_le cfg (ss.node.procs q)
    split_ifs <;> simp only [Work.remaining] <;> omega
  · rw [hset (Sched.hold_spec h).1]; simp [Work.remaining]
  · obtain ⟨s, hs, -⟩ := Sched.act_spec h rfl; rw [hset hs]; simp [Work.remaining]
  · obtain ⟨s, hs, -⟩ := Sched.act_spec h rfl; rw [hset hs]; simp [Work.remaining]
  · obtain ⟨s, hs, -⟩ := Sched.act_spec h rfl; rw [hset hs]; simp [Work.remaining]
  · obtain ⟨c', -, h⟩ := Option.bind_eq_some.1 h
    obtain ⟨s, hs, -⟩ := Sched.act_spec h rfl; rw [hset hs]; simp [Work.remaining]
  · split_ifs at h
    · obtain ⟨s, hs, -⟩ := Sched.act_spec h rfl; rw [hset hs]; simp [Work.remaining]
    · rw [hset (Sched.hold_spec h).1]; simp [Work.remaining]

/-- While a sibling has a call pending, an instant that does not resume it leaves the call as it
is: another sibling's event does not touch it, and its own calls are not enabled. -/
theorem SStep.work_of_not_resume {ss ss' : Sched} {e : Option Event} (h : SStep cfg k n ss e ss')
    {q : Nat} (hw : ss.work q ≠ .idle) (hr : ∀ base, e ≠ some (.resume q base)) :
    ss'.work q = ss.work q := by
  cases e with
  | none => cases h; rfl
  | some ev =>
    obtain ⟨hen, as, hstep⟩ := h
    obtain ⟨s, c, w, rfl, -, -⟩ := schedStep_set hstep
    rcases eq_or_ne q ev.sibling with rfl | hne
    · cases ev with
      | malloc => exact absurd hen.1 hw
      | free => exact absurd hen.1 hw
      | fault => exact absurd hen.1 hw
      | store => exact absurd hen.1 hw
      | resume q base => exact absurd rfl (hr base)
    · exact Sched.set_work_other _ _ _ _ hne

/-- Between an instant and the next resume of sibling `q`, its pending call does not move, and
that resume shortens it. -/
theorem SRun.remaining_drops (run : SRun cfg k n rank metric) {q : Nat} :
    ∀ d t, (run.state t).work q ≠ .idle →
      ∀ base, run.event (t + d) = some (.resume q base) →
        ∃ v, t < v ∧ ((run.state v).work q).remaining cfg < ((run.state t).work q).remaining cfg
  | 0, t, _, base, he => by
    have hs := run.step t
    rw [Nat.add_zero] at he
    rw [he] at hs
    obtain ⟨-, as, hstep⟩ := hs
    exact ⟨t + 1, Nat.lt_succ_self t, schedStep_resume_remaining hstep⟩
  | d + 1, t, hw, base, he => by
    by_cases hr : ∃ base', run.event t = some (.resume q base')
    · obtain ⟨base', hb⟩ := hr
      exact run.remaining_drops 0 t hw base' hb
    · have hkeep := (run.step t).work_of_not_resume hw fun b hb => hr ⟨b, hb⟩
      obtain ⟨v, hv, hlt⟩ :=
        run.remaining_drops d (t + 1) (hkeep ▸ hw) base (by rw [← he]; congr 1; omega)
      exact ⟨v, by omega, hkeep ▸ hlt⟩

/-- Every pending call returns: in a run that schedules sibling `q` again whenever it has a call
pending, whatever the other siblings do, the sibling is idle again at some later instant. Each
resume shortens the call (a traversal has one `MergeNode2` per region left, `MergeByBUFFERED`
one `MergePages` per buffered page), nothing else moves it, and the sibling's own calls wait. -/
theorem SRun.pass_finishes (run : SRun cfg k n rank metric) {q : Nat} (hfair : run.FairTo q)
    (t : Nat) : ∃ u, t ≤ u ∧ (run.state u).work q = .idle := by
  obtain ⟨m, hm⟩ : ∃ m, ((run.state t).work q).remaining cfg = m := ⟨_, rfl⟩
  induction m using Nat.strong_induction_on generalizing t with
  | _ m ih =>
    by_cases hw : (run.state t).work q = .idle
    · exact ⟨t, le_rfl, hw⟩
    obtain ⟨u, htu, base, he⟩ := hfair t hw
    obtain ⟨v, hv, hlt⟩ :=
      run.remaining_drops (u - t) t hw base (by rw [Nat.add_sub_cancel' htu]; exact he)
    obtain ⟨w, hvw, hidle⟩ := ih _ (hm ▸ hlt) v rfl
    exact ⟨w, by omega, hidle⟩

theorem pass_finishes_storeProgram :
    ∃ run : SRun Config.page4k Knobs.default 2 id (fun _ => .threshold),
      (run.state 0).work 0 = .thresholdTest ∧ ∃ u, (run.state u).work 0 = .idle := by
  obtain ⟨run, hw, hfair, -⟩ := storeProgram_srun
  obtain ⟨u, -, hu⟩ := run.pass_finishes hfair 0
  exact ⟨run, hw, u, hu⟩

end Runs

/-! ## Isolation

The siblings share the file's frames, and a merge remaps a sibling's page onto a frame another
sibling holds. Still, whatever a sibling does, the other siblings read what they read before. -/

section Isolation

variable {cfg : Config} {k : Knobs} {n : Nat} {rank : Nat → Nat} {metric : Nat → MergeMetric}

theorem Pass.step_other (cfg : Config) {A : Pass} {a : Action} {q : Nat} (h : a.sibling ≠ q) :
    (A.step cfg a).regions q = A.regions q ∧ (A.step cfg a).bytes q = A.bytes q := by
  cases a <;> simp only [Action.sibling] at h
  case malloc q' sz base =>
    simp only [Pass.step]
    split_ifs
    · exact ⟨rfl, rfl⟩
    · exact ⟨Function.update_noteq (Ne.symm h) _ _, funext fun j => by simp [Ne.symm h]⟩
  case free => exact ⟨Function.update_noteq (Ne.symm h) _ _, rfl⟩
  case store => exact ⟨rfl, Function.update_noteq (Ne.symm h) _ _⟩
  all_goals exact ⟨rfl, rfl⟩

theorem Pass.foldl_other (cfg : Config) {q : Nat} :
    ∀ {as : List Action} {A : Pass}, (∀ a ∈ as, a.sibling ≠ q) →
      (as.foldl (Pass.step cfg) A).regions q = A.regions q ∧
        (as.foldl (Pass.step cfg) A).bytes q = A.bytes q
  | [], _, _ => ⟨rfl, rfl⟩
  | a :: as, A, h => by
    have h₁ := Pass.step_other cfg (A := A) (h a (List.mem_cons_self _ _))
    have h₂ := Pass.foldl_other cfg (A := A.step cfg a) fun b hb => h b (List.mem_cons_of_mem _ hb)
    exact ⟨h₂.1.trans h₁.1, h₂.2.trans h₁.2⟩

/-- Isolation: no event of one sibling (a call, a write fault, or any step of its merge passes)
changes a byte that another sibling reads on a live page. -/
theorem SReachable.isolation (hr : RanksOK cfg n rank) {acts : List Action} {ss : Sched}
    (h : SReachable cfg k n rank metric acts ss) {ev : Event} (he : SEnabled cfg n ss ev)
    {ss' : Sched} {as : List Action} (hstep : schedStep MapEnv.ok cfg k ss ev = some (ss', as))
    {q : Nat} (hq : q < n) (hne : q ≠ ev.sibling) {i o : Nat} (hl : (ss.node.procs q).Live i)
    (ho : o < cfg.pageSize) : ss'.node.readByte q i o = ss.node.readByte q i o := by
  have hR := ((h.sinv hr).reach.inv hr).refines q hq
  have hR' := (((h.step ev he hstep).sinv hr).reach.inv hr).refines q hq
  obtain ⟨-, -, -, -, -, has⟩ := schedStep_set hstep
  have hA := Pass.foldl_other cfg (A := Pass.run cfg acts) fun a ha => (has a ha).trans_ne hne.symm
  rw [Pass.run, List.foldl_append, ← Pass.run] at hR'
  have hl' : (ss'.node.procs q).Live i := by
    rwa [Proc.Live, hR'.regions, hA.1, ← hR.regions]
  rw [hR'.readByte hl' ho, hR.readByte hl ho, hA.2]

theorem isolation_storeProgram :
    ∃ ss ss' as, SReachable Config.page4k Knobs.default 2 id (fun _ => .threshold) storeProgram ss ∧
      schedStep MapEnv.ok Config.page4k Knobs.default ss (.malloc 1 4096 1) = some (ss', as) ∧
      ss'.node.readByte 0 1 0 = some 7 := by
  have h₀ : SReachable Config.page4k Knobs.default 2 id (fun _ => .threshold) [] _ := .init
  have h₁ :=
    h₀.step (.malloc 0 4096 1) ⟨rfl, by decide, le_rfl, by decide, fun _ _ => rfl⟩ rfl
  have h₂ := h₁.step (.fault 0 1) ⟨rfl, by decide, rfl⟩ rfl
  have h₃ := h₂.step (.resume 0 0) ⟨by decide, by decide, fun _ h => by cases h⟩ rfl
  obtain ⟨ss, h, he, ss', as, hstep⟩ : ∃ ss,
      SReachable Config.page4k Knobs.default 2 id (fun _ => .threshold) storeProgram ss ∧
        SEnabled Config.page4k 2 ss (.malloc 1 4096 1) ∧ ∃ ss' as,
          schedStep MapEnv.ok Config.page4k Knobs.default ss (.malloc 1 4096 1) = some (ss', as) :=
    ⟨_, h₃.step (.store 0 1 0 7) ⟨rfl, by decide, rfl, by decide⟩ rfl,
      ⟨rfl, by decide, le_rfl, by decide, fun _ _ => rfl⟩, _, _, rfl⟩
  have hreach := (h.sinv ranksOK_page4k).reach
  have hl := storeProgram_live hreach
  refine ⟨ss, ss', as, h, hstep, ?_⟩
  rw [SReachable.isolation ranksOK_page4k h he hstep (q := 0) (by decide) (by decide) hl
    (by decide)]
  exact (((hreach.inv ranksOK_page4k).refines 0 (by decide)).readByte hl (by decide)).trans rfl

end Isolation

end SbllMalloc.SharedHeap
