import SbllMalloc.SharedHeap.Reach

/-!
# `MergeManyPages`, page by page

`MergeManyPages` batches runs of pages of one kind and hands each run to one action when the run
closes. `mergePageRef` is what that batching stands for, one page at a time in address order:

1. a page that is uninitialized, a zero page or held by this sibling is skipped;
2. a page of zeros is mapped read-only onto frame `0`, its zero bit set, and counted in
   `zeroPageCount` and out of `*allProcPrivatePageCount` (`zeroStep`);
3. a page no other sibling holds is copied into its frame, mapped read-only and held
   (`publishStep`);
4. a page equal to the frame other siblings hold is mapped onto it, held and counted as
   `RemapRegion` counts one page (`joinStep`);
5. any other page stays private.

Zero and joined pages count as merged pages. `mergeRef` runs `mergePageRef` over a region, and
`mergeManyPages_eq_mergeRef` proves `MergeManyPages` equal to it when every mapping call succeeds.

Each batched action is the fold of its page step over the run (`flush_eq_settle`): the run is
closed page by page, so the loop state with its run closed there (`MergeLoop.settle`) is the
reference state. The classification of a page reads only that page, its frame and frame `0`,
and a run only changes its own pages, so the loop classifies each page as the reference does.
-/

namespace SbllMalloc.SharedHeap

/-! ## The reference -/

/-- Some sibling other than the one of rank `r` holds frame `j`. -/
def othersHold (cfg : Config) (r : Nat) (info : Nat → Nat) (j : Nat) : Bool :=
  (List.range cfg.numProc).any fun k => k != r && (info j).testBit k

/-- Page `j` remapped read-only onto frame `0`, counted as a zero page and as merged. -/
def zeroStep : Proc × Shm × Nat → Nat → Proc × Shm × Nat
  | (p, shm, cnt), j =>
    ({ p with mem := Function.update p.mem j (.file 0 false),
              zeroPagesBV := Function.update p.zeroPagesBV j true,
              zeroPageCount := p.zeroPageCount + 1 },
     { shm with allProcPrivatePageCount := shm.allProcPrivatePageCount - 1 }, cnt + 1)

/-- Page `j` copied into frame `j`, mapped read-only onto it and held. -/
def publishStep (cfg : Config) : Proc × Shm × Nat → Nat → Proc × Shm × Nat
  | (p, shm, cnt), j =>
    ({ p with mem := Function.update p.mem j (.file j false) },
     { shm with
       frames := Function.update shm.frames j (((p.mem j).content shm.frames).getD (shm.frames j))
       sharingProcessesInfo := setSharingBit cfg.numProc p.myRank shm.sharingProcessesInfo j },
     cnt)

/-- Page `j` mapped read-only onto frame `j`, held, counted as `RemapRegion` counts one page and
as merged. -/
def joinStep (cfg : Config) : Proc × Shm × Nat → Nat → Proc × Shm × Nat
  | (p, shm, cnt), j =>
    ({ p with mem := Function.update p.mem j (.file j false) }, remapPage cfg p.myRank shm j,
     cnt + 1)

/-- The merge of page `j` on its own. -/
def mergePageRef (cfg : Config) : Proc × Shm × Nat → Nat → Proc × Shm × Nat
  | (p, shm, cnt), j =>
    if !p.initializedPagesBV j || p.zeroPagesBV j || p.Held shm.sharingProcessesInfo j then
      (p, shm, cnt)
    else
      match (p.mem j).content shm.frames with
      | none => (p, shm, cnt)
      | some c =>
        if comparePages cfg.pageSize c blankPage then zeroStep (p, shm, cnt) j
        else if !othersHold cfg p.myRank shm.sharingProcessesInfo j then
          publishStep cfg (p, shm, cnt) j
        else if comparePages cfg.pageSize (shm.frames j) c then joinStep cfg (p, shm, cnt) j
        else (p, shm, cnt)

/-- The per-page merge of the `size` pages from `startAddr`, in address order, with the count of
merged pages. -/
def mergeRef (cfg : Config) (p : Proc) (shm : Shm) (startAddr size : Nat) : Proc × Shm × Nat :=
  (List.range' startAddr size).foldl (mergePageRef cfg) (p, shm, 0)

/-! ## Runs closed page by page -/

/-- The page step of each kind of run. -/
def Run.step (cfg : Config) : Run → Proc × Shm × Nat → Nat → Proc × Shm × Nat
  | .none => fun st _ => st
  | .zero _ => zeroStep
  | .moveable _ => publishStep cfg
  | .shareable _ => joinStep cfg

/-- The loop state with its open run closed at `stop`, page by page. -/
def MergeLoop.settle (cfg : Config) (L : MergeLoop) (stop : Nat) : Proc × Shm × Nat :=
  match L.run.start with
  | none => (L.proc, L.shm, L.counterPagesMerged)
  | some a => (List.range' a (stop - a)).foldl (L.run.step cfg) (L.proc, L.shm, L.counterPagesMerged)

theorem not_inRange_zero (a j : Nat) : ¬InRange a 0 j := by unfold InRange; omega

theorem mapRange_zero (mem : Nat → Mapping) (a : Nat) (f : Nat → Mapping) :
    mapRange mem a 0 f = mem :=
  funext fun _ => mapRange_of_not_inRange f (not_inRange_zero _ _)

theorem inRange_succ {a k j : Nat} : InRange a (k + 1) j ↔ InRange a k j ∨ j = a + k := by
  unfold InRange; omega

theorem mapRange_succ (mem : Nat → Mapping) (a k : Nat) (f : Nat → Mapping) :
    mapRange mem a (k + 1) f = Function.update (mapRange mem a k f) (a + k) (f (a + k)) := by
  funext j
  rcases eq_or_ne j (a + k) with rfl | hj
  · simp [mapRange, InRange]
  · rw [Function.update_noteq hj]; simp only [mapRange, inRange_succ, hj, or_false]

theorem update_or_inRange (z : Nat → Bool) (a k : Nat) :
    Function.update (fun j => z j || decide (InRange a k j)) (a + k) true =
      fun j => z j || decide (InRange a (k + 1) j) := by
  funext j
  rcases eq_or_ne j (a + k) with rfl | hj
  · simp [InRange]
  · rw [Function.update_noteq hj]; simp only [inRange_succ, hj, or_false]

theorem foldl_zeroStep (a : Nat) : ∀ (k : Nat) (p : Proc) (shm : Shm) (cnt : Nat),
    (List.range' a k).foldl zeroStep (p, shm, cnt) =
      ({ p with mem := mapRange p.mem a k fun _ => .file 0 false,
                zeroPagesBV := fun j => p.zeroPagesBV j || decide (InRange a k j),
                zeroPageCount := p.zeroPageCount + k },
       { shm with allProcPrivatePageCount := shm.allProcPrivatePageCount - k }, cnt + k)
  | 0, p, shm, cnt => by
    simp only [List.range'_zero, List.foldl_nil, mapRange_zero, not_inRange_zero, decide_False,
      Bool.or_false, Nat.cast_zero, add_zero, sub_zero]
  | k + 1, p, shm, cnt => by
    rw [List.range'_concat, List.foldl_append, foldl_zeroStep a k, List.foldl_cons,
      List.foldl_nil, zeroStep, Nat.one_mul, mapRange_succ, update_or_inRange, Nat.cast_succ,
      sub_add_eq_sub_sub, add_assoc, add_assoc]

theorem foldl_joinStep (cfg : Config) (a : Nat) : ∀ (k : Nat) (p : Proc) (shm : Shm) (cnt : Nat),
    (List.range' a k).foldl (joinStep cfg) (p, shm, cnt) =
      ({ p with mem := mapRange p.mem a k fun j => .file j false },
       (List.range' a k).foldl (remapPage cfg p.myRank) shm, cnt + k)
  | 0, p, shm, cnt => by simp only [List.range'_zero, List.foldl_nil, mapRange_zero, add_zero]
  | k + 1, p, shm, cnt => by
    rw [List.range'_concat, List.foldl_append, foldl_joinStep cfg a k, List.foldl_cons,
      List.foldl_nil, joinStep, Nat.one_mul, mapRange_succ, List.foldl_append, List.foldl_cons,
      List.foldl_nil, Nat.add_assoc]

theorem foldl_publishStep (cfg : Config) (a : Nat) : ∀ (k : Nat) (p : Proc) (shm : Shm) (cnt : Nat),
    (∀ j, InRange a k j → ∃ c w, p.mem j = .anon c w) →
    (List.range' a k).foldl (publishStep cfg) (p, shm, cnt) =
      ({ p with mem := mapRange p.mem a k fun j => .file j false },
       { shm with
         frames := fun f => if InRange a k f then
             ((p.mem f).content shm.frames).getD (shm.frames f) else shm.frames f
         sharingProcessesInfo := fun i => if InRange a k i then
             (shm.sharingProcessesInfo i ||| currProcMask p.myRank) % 2 ^ cfg.numProc
           else shm.sharingProcessesInfo i }, cnt)
  | 0, p, shm, cnt, _ => by
    simp only [List.range'_zero, List.foldl_nil, mapRange_zero, not_inRange_zero, if_false]
  | k + 1, p, shm, cnt, hanon => by
    rw [List.range'_concat, List.foldl_append,
      foldl_publishStep cfg a k p shm cnt fun j hj => hanon j (inRange_succ.2 (.inl hj)),
      List.foldl_cons, List.foldl_nil, publishStep, Nat.one_mul, mapRange_succ]
    obtain ⟨c, w, hc⟩ := hanon (a + k) (inRange_succ.2 (.inr rfl))
    have hout : ¬InRange a k (a + k) := by simp [InRange]
    simp only [mapRange_of_not_inRange _ hout, hc, Mapping.content_anon, Option.getD_some]
    refine Prod.ext rfl (Prod.ext ?_ rfl)
    dsimp only
    rw [Shm.mk.injEq]
    refine ⟨?_, ?_, rfl, rfl, rfl, rfl⟩
    · funext f
      rcases eq_or_ne f (a + k) with rfl | hf
      · simp [InRange, hc]
      · rw [Function.update_noteq hf]; simp only [inRange_succ, hf, or_false]
    · funext i
      rcases eq_or_ne i (a + k) with rfl | hi
      · simp [setSharingBit, InRange, hout]
      · rw [setSharingBit, Function.update_noteq hi]; simp only [inRange_succ, hi, or_false]

/-! ## Page steps touch only their own page -/

/-- Two states agree on page `j`: its bits, its mapping, its holder entry and its frame. -/
structure PageAgree (st st' : Proc × Shm × Nat) (j : Nat) : Prop where
  init : st.1.initializedPagesBV j = st'.1.initializedPagesBV j
  zero : st.1.zeroPagesBV j = st'.1.zeroPagesBV j
  mem : st.1.mem j = st'.1.mem j
  info : st.2.1.sharingProcessesInfo j = st'.2.1.sharingProcessesInfo j
  frame : st.2.1.frames j = st'.2.1.frames j

theorem PageAgree.refl (st : Proc × Shm × Nat) (j : Nat) : PageAgree st st j :=
  ⟨rfl, rfl, rfl, rfl, rfl⟩

theorem PageAgree.trans {st st' st'' : Proc × Shm × Nat} {j : Nat} (h : PageAgree st st' j)
    (h' : PageAgree st' st'' j) : PageAgree st st'' j :=
  ⟨h.init.trans h'.init, h.zero.trans h'.zero, h.mem.trans h'.mem, h.info.trans h'.info,
    h.frame.trans h'.frame⟩

/-- A page step keeps the rank and changes nothing outside its own page. -/
structure PageLocalStep (f : Proc × Shm × Nat → Nat → Proc × Shm × Nat) : Prop where
  rank : ∀ st j, (f st j).1.myRank = st.1.myRank
  agree : ∀ st j j', j' ≠ j → PageAgree (f st j) st j'

theorem zeroStep_local : PageLocalStep zeroStep :=
  ⟨fun _ _ => rfl, fun _ _ _ h => ⟨rfl, Function.update_noteq h _ _, Function.update_noteq h _ _,
    rfl, rfl⟩⟩

theorem publishStep_local (cfg : Config) : PageLocalStep (publishStep cfg) :=
  ⟨fun _ _ => rfl, fun _ _ _ h => ⟨rfl, rfl, Function.update_noteq h _ _,
    Function.update_noteq h _ _, Function.update_noteq h _ _⟩⟩

theorem joinStep_local (cfg : Config) : PageLocalStep (joinStep cfg) :=
  ⟨fun _ _ => rfl, fun _ _ _ h => ⟨rfl, rfl, Function.update_noteq h _ _,
    by simp only [joinStep, remapPage_eq, setSharingBit, Function.update_noteq h],
    by simp only [joinStep, remapPage_eq]⟩⟩

theorem Run.step_local (cfg : Config) : ∀ r : Run, PageLocalStep (r.step cfg)
  | .none => ⟨fun _ _ => rfl, fun st _ j' _ => PageAgree.refl st j'⟩
  | .zero _ => zeroStep_local
  | .moveable _ => publishStep_local cfg
  | .shareable _ => joinStep_local cfg

theorem PageLocalStep.foldl {f : Proc × Shm × Nat → Nat → Proc × Shm × Nat}
    (hf : PageLocalStep f) {j : Nat} :
    ∀ (l : List Nat) (st : Proc × Shm × Nat), j ∉ l →
      (l.foldl f st).1.myRank = st.1.myRank ∧ PageAgree (l.foldl f st) st j
  | [], st, _ => ⟨rfl, PageAgree.refl st j⟩
  | i :: l, st, hj => by
    obtain ⟨hr, ha⟩ := hf.foldl l (f st i) fun h => hj (List.mem_cons_of_mem i h)
    exact ⟨hr.trans (hf.rank st i), ha.trans (hf.agree st i j fun h => hj (h ▸ List.mem_cons_self _ _))⟩

/-! ## Flushing closes the run page by page -/

variable {cfg : Config}

theorem settle_of_none {L : MergeLoop} (h : L.run = .none) (stop : Nat) :
    L.settle cfg stop = (L.proc, L.shm, L.counterPagesMerged) := by
  simp only [MergeLoop.settle, h, Run.start]

theorem settle_congr {L L' : MergeLoop} (hp : L'.proc = L.proc) (hs : L'.shm = L.shm)
    (hr : L'.run = L.run) (hc : L'.counterPagesMerged = L.counterPagesMerged) (stop : Nat) :
    L'.settle cfg stop = L.settle cfg stop := by
  simp only [MergeLoop.settle, hp, hs, hr, hc]

/-- The open run closed one page later is the run closed now, then page `p` by the run's step. -/
theorem settle_succ {L : MergeLoop} {a p : Nat} (ha : L.run.start = some a) (hap : a ≤ p) :
    L.settle cfg (p + 1) = L.run.step cfg (L.settle cfg p) p := by
  simp only [MergeLoop.settle, ha]
  rw [show p + 1 - a = p - a + 1 by omega, List.range'_concat, List.foldl_append, Nat.one_mul,
    Nat.add_sub_cancel' hap, List.foldl_cons, List.foldl_nil]

/-- A run opened at page `p`, closed one page later, is page `p` by the run's step. -/
theorem settle_open {L : MergeLoop} {p : Nat} (ha : L.run.start = some p) :
    L.settle cfg (p + 1) = L.run.step cfg (L.proc, L.shm, L.counterPagesMerged) p := by
  simp only [MergeLoop.settle, ha, Nat.add_sub_cancel_left, List.range'_one, List.foldl_cons,
    List.foldl_nil]

/-- Every flush, when its mapping calls succeed, is its run closed page by page. -/
theorem flush_eq_settle {L : MergeLoop} {stop : Nat}
    (h : ∀ a, L.run.start = some a →
      a < stop ∧ ∀ j, InRange a (stop - a) j → ∃ c w, L.proc.mem j = .anon c w) :
    flush MapEnv.ok cfg L stop =
      some { L with proc := (L.settle cfg stop).1, shm := (L.settle cfg stop).2.1,
                    counterPagesMerged := (L.settle cfg stop).2.2, run := .none } := by
  obtain ⟨p, shm, run, index, buf, cnt⟩ := L
  cases run with
  | none => rfl
  | zero a =>
    simp only [flush, MergeLoop.settle, Run.start, Run.step,
      remapToZero_ok _ _ (Nat.sub_pos_of_lt (h a rfl).1), foldl_zeroStep]
  | moveable a =>
    have hanon := (h a rfl).2
    simp only [flush, MergeLoop.settle, Run.start, Run.step, foldl_publishStep cfg a _ p shm cnt hanon]
    rw [copyAndRemapRegion_ok _ _ _ fun j hj => ?_]
    · rfl
    · obtain ⟨c, w, hc⟩ := hanon j hj; rw [show p.mem j = .anon c w from hc]; rfl
  | shareable a => simp only [flush, MergeLoop.settle, Run.start, Run.step, remapRegion_ok, foldl_joinStep]

/-! ## One page of the reference -/

theorem comparePages_congr_right {pageSize : Nat} (c : Page) {a b : Page}
    (h : ∀ o < pageSize, a o = b o) : comparePages pageSize c a = comparePages pageSize c b :=
  Bool.eq_iff_iff.2 <| by simp only [comparePages_iff]; exact forall₂_congr fun o ho => by rw [h o ho]

/-- With the entries of the holder table narrowed to `numProc` bits, `IsOtherSharing` asks whether
some other sibling holds the frame. -/
theorem isOtherSharing_eq_othersHold (cfg : Config) {r : Nat} {info : Nat → Nat} {j : Nat}
    (hr : r < cfg.numProc) (hi : info j < 2 ^ cfg.numProc) :
    isOtherSharing r info j = othersHold cfg r info j := by
  have hle := cfg.numProc_le
  rw [Bool.eq_iff_iff, isOtherSharing_iff (by omega)
    (hi.trans_le (Nat.pow_le_pow_right (by norm_num) hle)), othersHold, List.any_eq_true]
  simp only [List.mem_range, Bool.and_eq_true, bne_iff_ne, ne_eq]
  constructor
  · rintro ⟨k, hk, hb⟩
    refine ⟨k, ?_, hk, hb⟩
    by_contra hge
    rw [testBit_of_lt hi (not_lt.1 hge)] at hb
    exact Bool.false_ne_true hb
  · rintro ⟨k, -, hk, hb⟩; exact ⟨k, hk, hb⟩

theorem mergePageRef_skip {st : Proc × Shm × Nat} {j : Nat}
    (h : ¬(st.1.initializedPagesBV j = true ∧ st.1.zeroPagesBV j = false ∧
      st.1.Held st.2.1.sharingProcessesInfo j = false)) :
    mergePageRef cfg st j = st := by
  obtain ⟨p, shm, cnt⟩ := st
  rw [mergePageRef, if_pos]
  simpa only [Bool.or_eq_true, Bool.not_eq_true', not_and_or, Bool.not_eq_false, Bool.not_eq_true,
    or_assoc] using h

theorem mergePageRef_priv {st : Proc × Shm × Nat} {j : Nat} {c : Page} {w : Bool}
    (hi : st.1.initializedPagesBV j = true) (hz : st.1.zeroPagesBV j = false)
    (hh : st.1.Held st.2.1.sharingProcessesInfo j = false) (hm : st.1.mem j = .anon c w) :
    mergePageRef cfg st j =
      if comparePages cfg.pageSize c blankPage then zeroStep st j
      else if !othersHold cfg st.1.myRank st.2.1.sharingProcessesInfo j then publishStep cfg st j
      else if comparePages cfg.pageSize (st.2.1.frames j) c then joinStep cfg st j
      else st := by
  obtain ⟨p, shm, cnt⟩ := st
  rw [mergePageRef, if_neg (by simp only at hi hz hh; simp [hi, hz, hh])]
  simp only at hm
  rw [hm, Mapping.content_anon]

/-- The loop state with its open run closed at `stop`: what a flush at `stop` leaves. -/
def MergeLoop.closeRun (cfg : Config) (L : MergeLoop) (stop : Nat) : MergeLoop :=
  { L with proc := (L.settle cfg stop).1, shm := (L.settle cfg stop).2.1,
           counterPagesMerged := (L.settle cfg stop).2.2, run := .none }

/-! ## The loop against the reference -/

section Simulation

variable {p₀ : Proc} {shm₀ : Shm}

/-- What the loop state before page `pNext` keeps of the sibling `p₀` and the file `shm₀` the
pass started from: the pages from `pNext` on and frame `0` as they were, the open run's pages
anonymous, and the scratch window at `pNext`. -/
structure SimInv (cfg : Config) (p₀ : Proc) (shm₀ : Shm) (L : MergeLoop) (pNext : Nat) : Prop where
  rank : L.proc.myRank = p₀.myRank
  ahead : ∀ j, pNext ≤ j → PageAgree (L.proc, L.shm, L.counterPagesMerged) (p₀, shm₀, 0) j
  frame0 : L.shm.frames 0 = shm₀.frames 0
  run : ∀ a, L.run.start = some a → 0 < a ∧ a < pNext ∧
    ∀ j, InRange a (pNext - a) j → ∃ c w, L.proc.mem j = .anon c w
  window : WindowOK cfg L pNext

/-- The loop starts on the sibling and the file as they are, with no run open and no window. -/
theorem SimInv.init (pNext : Nat) : SimInv cfg p₀ shm₀ ⟨p₀, shm₀, .none, 0, none, 0⟩ pNext :=
  ⟨rfl, fun j _ => PageAgree.refl _ j, rfl, fun a ha => absurd ha (by simp [Run.start]),
    ⟨dvd_zero _, Nat.zero_le _, fun h => absurd rfl h⟩⟩

/-- Closing the run at `pNext` keeps the rank, frame `0` and the pages from `pNext` on. -/
theorem SimInv.settle_agree {L : MergeLoop} {pNext : Nat} (h : SimInv cfg p₀ shm₀ L pNext)
    {j : Nat} (hj : j = 0 ∨ pNext ≤ j) :
    (L.settle cfg pNext).1.myRank = L.proc.myRank ∧
      PageAgree (L.settle cfg pNext) (L.proc, L.shm, L.counterPagesMerged) j := by
  unfold MergeLoop.settle
  split
  · exact ⟨rfl, PageAgree.refl _ _⟩
  · rename_i a ha
    obtain ⟨h0, hlt, -⟩ := h.run a ha
    exact (Run.step_local cfg L.run).foldl _ _ (by simp only [List.mem_range'_1]; omega)

theorem SimInv.flush {L L' : MergeLoop} {p : Nat} (h : SimInv cfg p₀ shm₀ L p)
    (hp : L'.proc = L.proc) (hr : L'.run = L.run) :
    flush MapEnv.ok cfg L' p = some (L'.closeRun cfg p) :=
  flush_eq_settle fun a ha => by
    obtain ⟨-, hlt, hpg⟩ := h.run a (hr ▸ ha)
    exact ⟨hlt, fun j hj => hp ▸ hpg j hj⟩

section Outcomes

variable {L L' : MergeLoop} {p : Nat} (h : SimInv cfg p₀ shm₀ L p) (hp : L'.proc = L.proc)
  (hs : L'.shm = L.shm) (hr : L'.run = L.run) (hc : L'.counterPagesMerged = L.counterPagesMerged)
  (hW : WindowOK cfg L' (p + 1))
include h hp hs hr hc hW

/-- The run closed at page `p`. -/
theorem SimInv.close :
    SimInv cfg p₀ shm₀ (L'.closeRun cfg p) (p + 1) ∧
      (L'.closeRun cfg p).settle cfg (p + 1) = L.settle cfg p := by
  have hset := @settle_congr cfg _ _ hp hs hr hc p
  obtain ⟨hr0, h0⟩ := h.settle_agree (j := 0) (.inl rfl)
  refine ⟨⟨?_, fun j hj => ?_, ?_, fun a ha => absurd ha (by simp [MergeLoop.closeRun, Run.start]),
    hW.of_eq rfl rfl⟩, settle_of_none rfl _ |>.trans hset⟩
  · simp only [MergeLoop.closeRun, hset, hr0, h.rank]
  · obtain ⟨-, hj'⟩ := h.settle_agree (j := j) (.inr (by omega))
    simp only [MergeLoop.closeRun, hset]; exact hj'.trans (h.ahead j (by omega))
  · simp only [MergeLoop.closeRun, hset]; exact h0.frame.trans h.frame0

/-- The open run extended by page `p`. -/
theorem SimInv.extend {a : Nat} (ha : L.run.start = some a) {c : Page} {w : Bool}
    (hm : L.proc.mem p = .anon c w) :
    SimInv cfg p₀ shm₀ L' (p + 1) ∧
      L'.settle cfg (p + 1) = L.run.step cfg (L.settle cfg p) p := by
  obtain ⟨h0, hlt, hpg⟩ := h.run a ha
  refine ⟨⟨hp ▸ h.rank, fun j hj => by rw [hp, hs, hc]; exact h.ahead j (by omega),
    hs ▸ h.frame0, fun a' ha' => ?_, hW⟩, ?_⟩
  · rw [hr, ha, Option.some.injEq] at ha'
    subst ha'
    refine ⟨h0, by omega, fun j hj => ?_⟩
    rw [hp]
    rcases inRange_succ.1 (show InRange a (p - a + 1) j by rwa [← Nat.sub_add_comm hlt.le]) with
      hj | rfl
    · exact hpg j hj
    · rw [Nat.add_sub_cancel' hlt.le]; exact ⟨c, w, hm⟩
  · rw [settle_succ (by rw [hr]; exact ha) hlt.le, hr, settle_congr hp hs hr hc]

/-- A run of kind `r` opened at page `p` after the flush. -/
theorem SimInv.reopen {r : Run} (hr₀ : r.start = some p) (hp₀ : 0 < p) {c : Page} {w : Bool}
    (hm : L.proc.mem p = .anon c w) :
    SimInv cfg p₀ shm₀ { L'.closeRun cfg p with run := r } (p + 1) ∧
      { L'.closeRun cfg p with run := r }.settle cfg (p + 1) = r.step cfg (L.settle cfg p) p := by
  obtain ⟨⟨hrank, hahead, hf0, -, hW'⟩, hset⟩ := h.close hp hs hr hc hW
  obtain ⟨-, hA⟩ := h.settle_agree (j := p) (.inr le_rfl)
  refine ⟨⟨hrank, hahead, hf0, fun a ha => ?_, hW'.of_eq rfl rfl⟩, ?_⟩
  · rw [show ({ L'.closeRun cfg p with run := r } : MergeLoop).run = r from rfl, hr₀,
      Option.some.injEq] at ha
    subst ha
    refine ⟨hp₀, by omega, fun j hj => ?_⟩
    obtain rfl : j = p := by unfold InRange at hj; omega
    refine ⟨c, w, ?_⟩
    simp only [MergeLoop.closeRun, @settle_congr cfg _ _ hp hs hr hc]
    exact hA.mem.trans hm
  · rw [settle_open hr₀]
    simp only [MergeLoop.closeRun, @settle_congr cfg _ _ hp hs hr hc]

end Outcomes

/-- What the merge of a sibling's pages reads of the state it starts from: page `0` is not a page
of the heap, frame `0` holds zeros, the holder entries fit in `numProc` bits, the rank is one of
them, and an initialized page that is neither a zero page nor held is an anonymous private page. -/
structure MergeReady (cfg : Config) (p : Proc) (shm : Shm) : Prop where
  init0 : p.initializedPagesBV 0 = false
  frame0 : ∀ o < cfg.pageSize, shm.frames 0 o = 0
  entries : ∀ j, shm.sharingProcessesInfo j < 2 ^ cfg.numProc
  rank : p.myRank < cfg.numProc
  priv : ∀ j, p.initializedPagesBV j = true → p.zeroPagesBV j = false →
    p.Held shm.sharingProcessesInfo j = false → ∃ c, p.mem j = .anon c true

/-- One iteration of `MergeManyPages` is the reference's step on the page, once the run is closed
page by page. -/
theorem SimInv.iter (hready : MergeReady cfg p₀ shm₀) {L : MergeLoop} {p : Nat}
    (h : SimInv cfg p₀ shm₀ L p) :
    ∃ L', mergeIter MapEnv.ok cfg L p = some L' ∧ SimInv cfg p₀ shm₀ L' (p + 1) ∧
      L'.settle cfg (p + 1) = mergePageRef cfg (L.settle cfg p) p := by
  obtain ⟨hcur, hW⟩ := keepWindow_ok (show MapEnv.ok.scratch p = true from rfl) h.window
  obtain ⟨hp, hsh, hrn⟩ := keepWindow_proc MapEnv.ok L p
  have hcn : (keepWindow MapEnv.ok L p).counterPagesMerged = L.counterPagesMerged := by
    unfold keepWindow; split_ifs <;> rfl
  simp only [mergeIter, hcur]
  generalize keepWindow MapEnv.ok L p = K at hW hp hsh hrn hcn ⊢
  set L₂ : MergeLoop := { K with index := K.index + cfg.pageSize } with hL₂
  have hp₂ : L₂.proc = L.proc := hp
  have hs₂ : L₂.shm = L.shm := hsh
  have hr₂ : L₂.run = L.run := hrn
  have hc₂ : L₂.counterPagesMerged = L.counterPagesMerged := hcn
  replace hW : WindowOK cfg L₂ (p + 1) := hW
  have hflush := (h.flush hp₂ hr₂ : SharedHeap.flush MapEnv.ok cfg L₂ p = _)
  have hclose := h.close hp₂ hs₂ hr₂ hc₂ hW
  have hset₂ : L₂.settle cfg p = L.settle cfg p := settle_congr hp₂ hs₂ hr₂ hc₂ p
  have hA := h.ahead p le_rfl
  obtain ⟨hRr, hRA⟩ := h.settle_agree (j := p) (.inr le_rfl)
  have hi : L.proc.initializedPagesBV p = p₀.initializedPagesBV p := hA.init
  have hz : L.proc.zeroPagesBV p = p₀.zeroPagesBV p := hA.zero
  have hh : (L.shm.sharingProcessesInfo p).testBit L.proc.myRank =
      p₀.Held shm₀.sharingProcessesInfo p := by
    rw [h.rank, show L.shm.sharingProcessesInfo p = shm₀.sharingProcessesInfo p from hA.info]; rfl
  have hRi : (L.settle cfg p).1.initializedPagesBV p = p₀.initializedPagesBV p := hRA.init.trans hi
  have hRz : (L.settle cfg p).1.zeroPagesBV p = p₀.zeroPagesBV p := hRA.zero.trans hz
  have hRh : (L.settle cfg p).1.Held (L.settle cfg p).2.1.sharingProcessesInfo p =
      p₀.Held shm₀.sharingProcessesInfo p := by
    rw [Proc.Held, hRr, hRA.info]; exact hh
  rw [show K.proc = L₂.proc from rfl, show K.shm = L₂.shm from rfl, getSharingBit_eq, hp₂, hs₂,
    hi, hz, hh]
  by_cases hpv : p₀.initializedPagesBV p = true ∧ p₀.zeroPagesBV p = false ∧
      p₀.Held shm₀.sharingProcessesInfo p = false
  swap
  · -- an uninitialized, zero or held page closes the run, and the reference skips it
    refine ⟨_, ?_, hclose.1, hclose.2.trans (mergePageRef_skip (by rwa [hRi, hRz, hRh])).symm⟩
    split_ifs with c₁ c₂ c₃ <;> try exact hflush
    exact absurd ⟨by simpa using c₁, by simpa using c₂, by simpa using c₃⟩ hpv
  obtain ⟨hi0, hz0, hh0⟩ := hpv
  obtain ⟨c, hc0⟩ := hready.priv p hi0 hz0 hh0
  have hp0 : 0 < p := Nat.pos_of_ne_zero fun e => by subst e; rw [hready.init0] at hi0; cases hi0
  have hmL : L.proc.mem p = .anon c true := hA.mem.trans hc0
  have hcc : (L₂.proc.mem p).content L₂.shm.frames = some c := by rw [hp₂, hmL]; rfl
  rw [if_neg (by simp [hi0]), if_neg (by simp [hz0]), if_neg (by simp [hh0]),
    mergePageRef_priv (hRi.trans hi0) (hRz.trans hz0) (hRh.trans hh0) (hRA.mem.trans hmL)]
  have hzero : comparePages cfg.pageSize c (L₂.shm.frames 0) = comparePages cfg.pageSize c blankPage := by
    rw [hs₂, h.frame0]; exact comparePages_congr_right c hready.frame0
  have hoth : isOtherSharing L₂.proc.myRank L₂.shm.sharingProcessesInfo p =
      othersHold cfg (L.settle cfg p).1.myRank (L.settle cfg p).2.1.sharingProcessesInfo p := by
    rw [hp₂, hs₂, isOtherSharing_eq_othersHold cfg (h.rank ▸ hready.rank)
      ((congrArg (· < _) hA.info).mpr (hready.entries p))]
    simp only [othersHold, hRr, hRA.info]
  by_cases hzc : comparePages cfg.pageSize c blankPage = true
  · -- a page of zeros
    rw [classify_zero _ _ _ _ hcc (hzero.trans hzc), hr₂, if_pos hzc]
    cases hr : L.run with
    | zero a =>
      obtain ⟨hS, hset⟩ := h.extend hp₂ hs₂ hr₂ hc₂ hW (a := a) (by rw [hr]; rfl) hmL
      exact ⟨L₂, rfl, hS, by rw [hset, hr]; rfl⟩
    | _ =>
      rw [hflush, Option.some_bind]
      exact ⟨_, rfl, h.reopen hp₂ hs₂ hr₂ hc₂ hW (r := .zero _) rfl hp0 hmL⟩
  have hzf : comparePages cfg.pageSize c (L₂.shm.frames 0) = false := by
    rw [hzero]; simpa using hzc
  rw [if_neg hzc]
  cases ho : othersHold cfg (L.settle cfg p).1.myRank (L.settle cfg p).2.1.sharingProcessesInfo p
  · -- a page nobody else holds
    rw [classify_moveable _ _ _ _ hcc hzf (hoth.trans ho), hr₂, if_pos (show (!false) = true from rfl)]
    cases hr : L.run with
    | moveable a =>
      obtain ⟨hS, hset⟩ := h.extend hp₂ hs₂ hr₂ hc₂ hW (a := a) (by rw [hr]; rfl) hmL
      exact ⟨L₂, rfl, hS, by rw [hset, hr]; rfl⟩
    | _ =>
      rw [hflush, Option.some_bind]
      exact ⟨_, rfl, h.reopen hp₂ hs₂ hr₂ hc₂ hW (r := .moveable _) rfl hp0 hmL⟩
  -- a page whose frame other siblings hold: compared with the frame
  rw [classify_shareable _ _ _ _ hcc hzf (hoth.trans ho), hr₂, if_neg (by simp)]
  have hfr : (L.settle cfg p).2.1.frames p = L.shm.frames p := hRA.frame
  cases hr : L.run with
  | shareable a =>
    simp only [Option.some_bind, hcc]
    rw [show K.shm.frames p = (L.settle cfg p).2.1.frames p by rw [hsh, hfr]]
    cases heq : comparePages cfg.pageSize ((L.settle cfg p).2.1.frames p) c
    · rw [if_neg Bool.false_ne_true, if_neg Bool.false_ne_true]
      exact ⟨_, hflush, hclose⟩
    · rw [if_pos rfl, if_pos rfl]
      obtain ⟨hS, hset⟩ := h.extend hp₂ hs₂ hr₂ hc₂ hW (a := a) (by rw [hr]; rfl) hmL
      exact ⟨L₂, by rw [hrn, hr], hS, by rw [hset, hr]; rfl⟩
  | _ =>
    have hcR : ((L₂.closeRun cfg p).proc.mem p).content (L₂.closeRun cfg p).shm.frames = some c := by
      simp only [MergeLoop.closeRun, hset₂, hRA.mem.trans hmL]; rfl
    have hfR : (L₂.closeRun cfg p).shm.frames p = (L.settle cfg p).2.1.frames p := by
      simp only [MergeLoop.closeRun, hset₂]
    simp only [hflush, Option.some_bind, hcR, hfR]
    cases heq : comparePages cfg.pageSize ((L.settle cfg p).2.1.frames p) c
    · rw [if_neg Bool.false_ne_true, if_neg Bool.false_ne_true, flush_none _ rfl]
      exact ⟨_, rfl, hclose⟩
    · rw [if_pos rfl, if_pos rfl]
      exact ⟨_, rfl, h.reopen hp₂ hs₂ hr₂ hc₂ hW (r := .shareable _) rfl hp0 hmL⟩

/-- The loop of `MergeManyPages` over `k` pages from `p` is the reference over them. -/
theorem SimInv.loop (hready : MergeReady cfg p₀ shm₀) :
    ∀ (k p : Nat) (L : MergeLoop), SimInv cfg p₀ shm₀ L p →
      ∃ L', (List.range' p k).foldlM (mergeIter MapEnv.ok cfg) L = some L' ∧
        SimInv cfg p₀ shm₀ L' (p + k) ∧
        L'.settle cfg (p + k) = (List.range' p k).foldl (mergePageRef cfg) (L.settle cfg p)
  | 0, p, L, h => ⟨L, rfl, h, rfl⟩
  | k + 1, p, L, h => by
    obtain ⟨L₁, h₁, hS₁, hset₁⟩ := h.iter hready
    obtain ⟨L₂, h₂, hS₂, hset₂⟩ := SimInv.loop hready k (p + 1) L₁ hS₁
    rw [show p + (k + 1) = p + 1 + k by omega, List.range'_succ, List.foldlM_cons, h₁,
      Option.bind_eq_bind, Option.some_bind, List.foldl_cons, ← hset₁]
    exact ⟨L₂, h₂, hS₂, hset₂⟩

/-- When every mapping call succeeds, `MergeManyPages` is the per-page merge. -/
theorem MergeReady.mergeManyPages_eq (hready : MergeReady cfg p₀ shm₀) (startAddr size : Nat) :
    mergeManyPages MapEnv.ok cfg p₀ shm₀ startAddr size =
      some (mergeRef cfg p₀ shm₀ startAddr size) := by
  obtain ⟨L, hL, hS, hset⟩ := SimInv.loop hready size startAddr _ (SimInv.init startAddr)
  simp only [mergeManyPages, hL, hS.flush rfl rfl, Option.bind_eq_bind, Option.some_bind]
  exact congrArg some hset

end Simulation

/-- `MergeNode2` on a dirty region of one page is the per-page merge of that page, with the region
marked clean. -/
theorem MergeReady.step_mergeNode_page {s : Node} {q key : Nat}
    (hready : MergeReady cfg (s.procs q) s.shm) (ha : (s.procs q).allocRecord key = some 1)
    (hd : (s.procs q).dirty key = true) :
    step MapEnv.ok cfg s (.mergeNode q key) = some (s.setProc q
      { (mergePageRef cfg (s.procs q, s.shm, 0) key).1 with
        dirty := Function.update (mergePageRef cfg (s.procs q, s.shm, 0) key).1.dirty key false }
      (mergePageRef cfg (s.procs q, s.shm, 0) key).2.1) := by
  rw [step_mergeNode, mergeNode2_dirty _ _ _ ha hd, hready.mergeManyPages_eq, mergeRef,
    List.range'_one, List.foldl_cons, List.foldl_nil]
  rfl

/-! ## What a merge leaves -/

/-- `mergePageRef` on page `j` changes nothing, or is one of the three page steps on an
initialized page. -/
theorem mergePageRef_cases (cfg : Config) (st : Proc × Shm × Nat) (j : Nat) :
    mergePageRef cfg st j = st ∨ st.1.initializedPagesBV j = true ∧
      (mergePageRef cfg st j = zeroStep st j ∨ mergePageRef cfg st j = publishStep cfg st j ∨
        mergePageRef cfg st j = joinStep cfg st j) := by
  obtain ⟨p, shm, cnt⟩ := st
  rw [mergePageRef]
  by_cases h : (!p.initializedPagesBV j || p.zeroPagesBV j || p.Held shm.sharingProcessesInfo j) = true
  · exact .inl (if_pos h)
  · have hi : p.initializedPagesBV j = true := by simp at h; exact h.1.1
    rw [if_neg h]
    split
    · exact .inl rfl
    · split_ifs <;> simp [hi]

/-- A property the per-page merge keeps on every page holds after it runs over any pages. -/
theorem foldl_mergePageRef_induction {P : Proc × Shm × Nat → Prop}
    (h : ∀ st j, P st → P (mergePageRef cfg st j)) :
    ∀ (l : List Nat) (st : Proc × Shm × Nat), P st → P (l.foldl (mergePageRef cfg) st)
  | [], _, hst => hst
  | j :: l, st, hst => foldl_mergePageRef_induction h l _ (h st j hst)

/-- The merge keeps the initialized bits, the rank and the width of the holder entries; an
uninitialized page is not touched. -/
theorem mergePageRef_keeps (st : Proc × Shm × Nat) (j : Nat) :
    (mergePageRef cfg st j).1.initializedPagesBV = st.1.initializedPagesBV ∧
    (mergePageRef cfg st j).1.myRank = st.1.myRank ∧
    ((∀ k, st.2.1.sharingProcessesInfo k < 2 ^ cfg.numProc) →
      ∀ k, (mergePageRef cfg st j).2.1.sharingProcessesInfo k < 2 ^ cfg.numProc) ∧
    (∀ j', st.1.initializedPagesBV j' = false → PageAgree (mergePageRef cfg st j) st j') := by
  have hagree : ∀ j', st.1.initializedPagesBV j' = false → PageAgree (mergePageRef cfg st j) st j' :=
    fun j' hj' => by
      rcases mergePageRef_cases cfg st j with e | ⟨hi, e | e | e⟩
      · rw [e]; exact PageAgree.refl st j'
      all_goals
        have hne : j' ≠ j := by rintro rfl; rw [hi] at hj'; cases hj'
        rw [e]
      · exact zeroStep_local.agree st j j' hne
      · exact (publishStep_local cfg).agree st j j' hne
      · exact (joinStep_local cfg).agree st j j' hne
  obtain ⟨p, shm, cnt⟩ := st
  refine ⟨?_, ?_, fun hw k => ?_, hagree⟩ <;>
    rcases mergePageRef_cases cfg (p, shm, cnt) j with e | ⟨-, e | e | e⟩ <;> rw [e]
  all_goals first
    | rfl
    | exact hw k
    | exact setSharingBit_lt (hw k) _ _
    | simp only [joinStep, remapPage_eq]; exact setSharingBit_lt (hw k) _ _

/-- Page `j` as a merge leaves it, when it is initialized: a zero page mapped onto frame `0`,
held and mapped onto its own frame, or private with bytes that are not all zero, in a frame
another sibling holds with other bytes. -/
def Merged (cfg : Config) (p : Proc) (shm : Shm) (j : Nat) : Prop :=
  p.initializedPagesBV j = true →
    (p.zeroPagesBV j = true ∧ p.mem j = .file 0 false) ∨
    (p.Held shm.sharingProcessesInfo j = true ∧ p.mem j = .file j false) ∨
    (∃ c, p.mem j = .anon c true ∧ comparePages cfg.pageSize c blankPage = false ∧
      othersHold cfg p.myRank shm.sharingProcessesInfo j = true ∧
      comparePages cfg.pageSize (shm.frames j) c = false)

/-- How the invariant has an initialized page mapped: onto frame `0` when its zero bit is set,
onto its own frame when it is held, and anonymous and writable otherwise. -/
def PageMapped (p : Proc) (info : Nat → Nat) (j : Nat) : Prop :=
  p.initializedPagesBV j = true →
    (p.zeroPagesBV j = true → p.mem j = .file 0 false) ∧
    (p.zeroPagesBV j = false → p.Held info j = true → p.mem j = .file j false) ∧
    (p.zeroPagesBV j = false → p.Held info j = false → ∃ c, p.mem j = .anon c true)

theorem Merged.of_agree {st st' : Proc × Shm × Nat} {j : Nat} (h : PageAgree st st' j)
    (hr : st.1.myRank = st'.1.myRank) (hm : Merged cfg st'.1 st'.2.1 j) :
    Merged cfg st.1 st.2.1 j := by
  simpa only [Merged, Proc.Held, othersHold, h.init, h.zero, h.mem, h.info, h.frame, hr] using hm

theorem PageMapped.of_agree {st st' : Proc × Shm × Nat} {j : Nat} (h : PageAgree st st' j)
    (hr : st.1.myRank = st'.1.myRank) (hm : PageMapped st'.1 st'.2.1.sharingProcessesInfo j) :
    PageMapped st.1 st.2.1.sharingProcessesInfo j := by
  simpa only [PageMapped, Proc.Held, h.init, h.zero, h.mem, h.info, hr] using hm

/-- The merge of an initialized page leaves it merged. -/
theorem mergePageRef_merged {st : Proc × Shm × Nat} {j : Nat} (hr : st.1.myRank < cfg.numProc)
    (hw : st.2.1.sharingProcessesInfo j < 2 ^ cfg.numProc)
    (hm : PageMapped st.1 st.2.1.sharingProcessesInfo j) :
    Merged cfg (mergePageRef cfg st j).1 (mergePageRef cfg st j).2.1 j := by
  obtain ⟨p, shm, cnt⟩ := st
  intro hi
  rw [(@mergePageRef_keeps cfg (p, shm, cnt) j).1] at hi
  have hheld : (setSharingBit cfg.numProc p.myRank shm.sharingProcessesInfo j j).testBit p.myRank =
      true := by simp [setSharingBit_testBit hw hr]
  obtain ⟨hz, hh, hpriv⟩ := hm hi
  cases hzj : p.zeroPagesBV j
  · cases hhj : p.Held shm.sharingProcessesInfo j
    · obtain ⟨c, hc⟩ := hpriv hzj hhj
      rw [mergePageRef_priv hi hzj hhj hc]
      split_ifs with h1 h2 h3
      · exact .inl ⟨by simp [zeroStep], by simp [zeroStep]⟩
      · exact .inr (.inl ⟨hheld, by simp [publishStep]⟩)
      · exact .inr (.inl ⟨by simpa [joinStep, remapPage_eq, Proc.Held] using hheld,
          by simp [joinStep]⟩)
      · exact .inr (.inr ⟨c, hc, by simpa using h1, by simpa using h2, by simpa using h3⟩)
    · rw [mergePageRef_skip (by simp [hhj])]
      exact .inr (.inl ⟨hhj, hh hzj hhj⟩)
  · rw [mergePageRef_skip (by simp [hzj])]
    exact .inl ⟨hzj, hz hzj⟩

/-- A merged page is left alone by the merge. -/
theorem mergePageRef_of_merged {st : Proc × Shm × Nat} {j : Nat}
    (hm : Merged cfg st.1 st.2.1 j) : mergePageRef cfg st j = st := by
  by_cases hpv : st.1.initializedPagesBV j = true ∧ st.1.zeroPagesBV j = false ∧
      st.1.Held st.2.1.sharingProcessesInfo j = false
  · obtain ⟨hi, hz, hh⟩ := hpv
    rcases hm hi with ⟨hz', -⟩ | ⟨hh', -⟩ | ⟨c, hc, h1, h2, h3⟩
    · rw [hz] at hz'; cases hz'
    · rw [hh] at hh'; cases hh'
    · rw [mergePageRef_priv hi hz hh hc, if_neg (by simp [h1]), if_neg (by simp [h2]),
        if_neg (by simp [h3])]
  · exact mergePageRef_skip hpv

theorem mergePageRef_local (cfg : Config) : PageLocalStep (mergePageRef cfg) where
  rank st j := (mergePageRef_keeps st j).2.1
  agree st j j' hj := by
    rcases mergePageRef_cases cfg st j with e | ⟨-, e | e | e⟩ <;> rw [e]
    · exact PageAgree.refl st j'
    · exact zeroStep_local.agree st j j' hj
    · exact (publishStep_local cfg).agree st j j' hj
    · exact (joinStep_local cfg).agree st j j' hj

section Region

variable {p : Proc} {shm : Shm} {startAddr size : Nat}

/-- After the per-page merge over a region, every page of the region is merged: each page is
merged in its turn, and the pages after it do not touch it. -/
theorem mergeRef_merged (hready : MergeReady cfg p shm)
    (hmap : ∀ j, PageMapped p shm.sharingProcessesInfo j) {j : Nat} (hj : InRange startAddr size j) :
    Merged cfg (mergeRef cfg p shm startAddr size).1 (mergeRef cfg p shm startAddr size).2.1 j := by
  obtain ⟨l₁, l₂, hl⟩ := List.append_of_mem (List.mem_range'_1.2 hj)
  have hnd := hl ▸ List.nodup_range' startAddr size
  have h₁ : j ∉ l₁ := fun h => (List.nodup_append.1 hnd).2.2 h (List.mem_cons_self _ _)
  have h₂ : j ∉ l₂ := (List.nodup_cons.1 (List.nodup_append.1 hnd).2.1).1
  rw [mergeRef, hl, List.foldl_append, List.foldl_cons]
  obtain ⟨hr₁, ha₁⟩ := (mergePageRef_local cfg).foldl l₁ (p, shm, 0) h₁
  obtain ⟨hr₂, ha₂⟩ := (mergePageRef_local cfg).foldl l₂
    (mergePageRef cfg (l₁.foldl (mergePageRef cfg) (p, shm, 0)) j) h₂
  exact Merged.of_agree ha₂ hr₂ (mergePageRef_merged (hr₁ ▸ hready.rank)
    (ha₁.info ▸ hready.entries j) ((hmap j).of_agree ha₁ hr₁))

/-- The merge over a region of merged pages changes nothing. -/
theorem mergeRef_of_merged (hm : ∀ j, InRange startAddr size j → Merged cfg p shm j) :
    mergeRef cfg p shm startAddr size = (p, shm, 0) := by
  suffices ∀ l : List Nat, (∀ j ∈ l, Merged cfg p shm j) →
      l.foldl (mergePageRef cfg) (p, shm, 0) = (p, shm, 0) from
    this _ fun j hj => hm j (List.mem_range'_1.1 hj)
  intro l
  induction l with
  | nil => intro _; rfl
  | cons j l ih =>
    intro h
    rw [List.foldl_cons, mergePageRef_of_merged (h j (List.mem_cons_self _ _))]
    exact ih fun k hk => h k (List.mem_cons_of_mem _ hk)

/-- The state a merge leaves is again one the merge can read. -/
theorem MergeReady.of_mergeRef (hready : MergeReady cfg p shm)
    (hmap : ∀ j, PageMapped p shm.sharingProcessesInfo j) (startAddr size : Nat) :
    MergeReady cfg (mergeRef cfg p shm startAddr size).1 (mergeRef cfg p shm startAddr size).2.1 := by
  obtain ⟨hi, hr, hw, h0⟩ : (mergeRef cfg p shm startAddr size).1.initializedPagesBV =
      p.initializedPagesBV ∧ (mergeRef cfg p shm startAddr size).1.myRank = p.myRank ∧
      (∀ k, (mergeRef cfg p shm startAddr size).2.1.sharingProcessesInfo k < 2 ^ cfg.numProc) ∧
      PageAgree (mergeRef cfg p shm startAddr size) (p, shm, 0) 0 :=
    foldl_mergePageRef_induction (P := fun st => st.1.initializedPagesBV = p.initializedPagesBV ∧
      st.1.myRank = p.myRank ∧ (∀ k, st.2.1.sharingProcessesInfo k < 2 ^ cfg.numProc) ∧
      PageAgree st (p, shm, 0) 0) (fun st j ⟨hi, hr, hw, h0⟩ => by
      obtain ⟨hi', hr', hw', hagree⟩ := @mergePageRef_keeps cfg st j
      exact ⟨hi'.trans hi, hr'.trans hr, hw' hw,
        (hagree 0 (by rw [hi]; exact hready.init0)).trans h0⟩) _ _
      ⟨rfl, rfl, hready.entries, PageAgree.refl _ 0⟩
  refine ⟨by rw [hi]; exact hready.init0, fun o ho => h0.frame ▸ hready.frame0 o ho, hw,
    hr ▸ hready.rank, fun j hij hzj hhj => ?_⟩
  by_cases hj : InRange startAddr size j
  · rcases mergeRef_merged hready hmap hj hij with ⟨hz, -⟩ | ⟨hh, -⟩ | ⟨c, hc, -⟩
    · rw [hzj] at hz; cases hz
    · rw [hhj] at hh; cases hh
    · exact ⟨c, hc⟩
  · obtain ⟨hr', ha⟩ := (mergePageRef_local cfg).foldl (List.range' startAddr size) (p, shm, 0)
      (j := j) fun h => hj (List.mem_range'_1.1 h)
    have hpj := hready.priv j (ha.init ▸ hij) (ha.zero ▸ hzj)
      (by rw [← hhj, Proc.Held, Proc.Held]; exact congrArg₂ Nat.testBit ha.info.symm hr'.symm)
    rw [mergeRef, ha.mem]; exact hpj

end Region

/-- `MergeNode2` marks the region clean, so a second call on it changes nothing. -/
theorem mergeNode2_twice {env : MapEnv} {p p' : Proc} {shm shm' : Shm} {key : Nat}
    (h : mergeNode2 env cfg p shm key = some (p', shm')) :
    mergeNode2 env cfg p' shm' key = some (p', shm') := by
  have hclean : p'.allocRecord key = none ∨ p'.dirty key = false := by
    unfold mergeNode2 at h
    split at h
    · cases h; exact .inl ‹_›
    · split_ifs at h with hd
      · obtain ⟨⟨p₁, shm₁, cnt⟩, -, h⟩ := Option.bind_eq_some.1 h
        cases h; exact .inr (by simp)
      · cases h; exact .inr (by simpa using hd)
  unfold mergeNode2
  rcases hclean with hn | hd
  · rw [hn]
  · split
    · rfl
    · rw [if_neg (by simp [hd])]

/-! ## From the invariant -/

section FromInv

variable {n : Nat} {A : Pass} {s : Node} {q : Nat}

/-- The invariant gives what the merge reads; page `0` lies in no region, so it is not
initialized. -/
theorem Inv.mergeReady (hs : Inv cfg n A s) (hq : q < n) : MergeReady cfg (s.procs q) s.shm where
  init0 := by
    by_contra h
    obtain ⟨b, size, hb, hin⟩ := hs.live_of_init hq (by simpa using h)
    have := ((hs.sib q hq).regions.bounds b size hb).2.1
    unfold InRange at hin; omega
  frame0 := hs.frame0
  entries := hs.entries
  rank := hs.rank_lt q hq
  priv j hi hz hh := hs.priv_mem hq ⟨hs.live_of_init hq hi, hi, hz, hh⟩

/-- From any state the invariant holds in, `MergeManyPages` over any region, when every mapping
call succeeds, gives exactly the sibling, the file and the count of merged pages that the
per-page merge gives. -/
theorem Inv.mergeManyPages_eq_mergeRef (hs : Inv cfg n A s) (hq : q < n) (startAddr size : Nat) :
    mergeManyPages MapEnv.ok cfg (s.procs q) s.shm startAddr size =
      some (mergeRef cfg (s.procs q) s.shm startAddr size) :=
  (hs.mergeReady hq).mergeManyPages_eq startAddr size

theorem Inv.mergeManyPages_eq_mergeRef_storeProgram :
    ∃ s, Reachable Config.page4k 2 id (fun _ => .threshold) storeProgram s ∧
      Inv Config.page4k 2 (Pass.run Config.page4k storeProgram) s ∧ 0 < 2 ∧
      mergeManyPages MapEnv.ok Config.page4k (s.procs 0) s.shm 1 1 =
        some (mergeRef Config.page4k (s.procs 0) s.shm 1 1) := by
  obtain ⟨s, h, -⟩ := storeProgram_reachable
  have hs := h.inv ranksOK_page4k
  exact ⟨s, h, hs, by decide, Inv.mergeManyPages_eq_mergeRef hs (by decide) 1 1⟩

/-- Sibling `0` allocates a region of 1100 pages at page `1` and writes pages `1` and `1026`. -/
def wrapProgram : List Action :=
  [.malloc 0 4505600 1, .fault 0 1, .store 0 1 0 7, .fault 0 1026, .store 0 1026 0 9]

/-- The scratch window of `mergeManyPages_scratch_window` after 1025 pages of the written region:
the window is re-established at page `1025`, and page `1026`, which holds the stored byte, is
compared with its own frame. -/
theorem mergeManyPages_scratch_window_wrap :
    ∃ s L, Reachable Config.page4k 2 id (fun _ => .threshold) wrapProgram s ∧
      (s.procs 0).mem 1026 = .anon (Function.update blankPage 0 9) true ∧
      (List.range' 1 1025).foldlM (mergeIter MapEnv.ok Config.page4k)
        ⟨s.procs 0, s.shm, .none, 0, none, 0⟩ = some L ∧
      currPage Config.page4k (keepWindow MapEnv.ok L (1 + 1025)) = some (1 + 1025) := by
  have h₀ : Reachable Config.page4k 2 id (fun _ => .threshold) [] _ := .init
  have h₂ := (h₀.step (.malloc 0 4505600 1) ⟨by decide, le_rfl, by decide, fun _ _ => rfl⟩
    rfl).step (.fault 0 1) ⟨by decide, rfl⟩ rfl
  have h := ((h₂.step (.store 0 1 0 7) ⟨by decide, rfl, by decide⟩ rfl).step (.fault 0 1026)
    ⟨by decide, rfl⟩ rfl).step (.store 0 1026 0 9) ⟨by decide, rfl, by decide⟩ rfl
  obtain ⟨L, hL, -⟩ := SimInv.loop ((h.inv ranksOK_page4k).mergeReady (q := 0) (by decide)) 1025 1
    _ (SimInv.init 1)
  exact ⟨_, L, h, rfl, hL, mergeManyPages_scratch_window MapEnv.ok (fun _ => rfl) _ _ _ 1 1025 L hL⟩

theorem LiveState.pageMapped {i : Nat} {init zero held : Bool} {m : Mapping}
    (h : LiveState i init zero held m) (hi : init = true) :
    (zero = true → m = .file 0 false) ∧ (zero = false → held = true → m = .file i false) ∧
      (zero = false → held = false → ∃ c, m = .anon c true) := by
  cases h <;> simp_all

theorem Inv.pageMapped (hs : Inv cfg n A s) (hq : q < n) (j : Nat) :
    PageMapped (s.procs q) s.shm.sharingProcessesInfo j := fun hi =>
  (hs.liveState hq (hs.live_of_init hq hi)).pageMapped hi

/-- From any state the invariant holds in, after `MergeManyPages` over a region with every
mapping call succeeding, each initialized page of the region is a zero page mapped onto frame
`0`, held and mapped onto its frame, or private with bytes that are not all zero in a frame
another sibling holds with other bytes. So a second `MergeManyPages` over the region changes
nothing and merges no page, and a second `MergeNode2` changes nothing. -/
theorem Inv.merge_idempotent (hs : Inv cfg n A s) (hq : q < n) (startAddr size : Nat) :
    ∃ p' shm' cnt, mergeManyPages MapEnv.ok cfg (s.procs q) s.shm startAddr size =
        some (p', shm', cnt) ∧
      (∀ j, InRange startAddr size j → Merged cfg p' shm' j) ∧
      mergeManyPages MapEnv.ok cfg p' shm' startAddr size = some (p', shm', 0) ∧
      ∀ key p'' shm'', mergeNode2 MapEnv.ok cfg (s.procs q) s.shm key = some (p'', shm'') →
        mergeNode2 MapEnv.ok cfg p'' shm'' key = some (p'', shm'') := by
  have hready := hs.mergeReady hq
  have hmap := hs.pageMapped hq
  have hmerged := fun j (hj : InRange startAddr size j) => mergeRef_merged hready hmap hj
  refine ⟨(mergeRef cfg (s.procs q) s.shm startAddr size).1,
    (mergeRef cfg (s.procs q) s.shm startAddr size).2.1,
    (mergeRef cfg (s.procs q) s.shm startAddr size).2.2, hready.mergeManyPages_eq startAddr size,
    hmerged, ?_, fun _ _ _ h => mergeNode2_twice h⟩
  rw [(hready.of_mergeRef hmap startAddr size).mergeManyPages_eq, mergeRef_of_merged hmerged]

theorem Inv.merge_idempotent_storeProgram :
    ∃ s, Reachable Config.page4k 2 id (fun _ => .threshold) storeProgram s ∧
      Inv Config.page4k 2 (Pass.run Config.page4k storeProgram) s ∧ 0 < 2 ∧
      ∃ p' shm' cnt, mergeManyPages MapEnv.ok Config.page4k (s.procs 0) s.shm 1 1 =
          some (p', shm', cnt) ∧
        (∀ j, InRange 1 1 j → Merged Config.page4k p' shm' j) ∧
        mergeManyPages MapEnv.ok Config.page4k p' shm' 1 1 = some (p', shm', 0) ∧
        ∀ key p'' shm'', mergeNode2 MapEnv.ok Config.page4k (s.procs 0) s.shm key =
            some (p'', shm'') →
          mergeNode2 MapEnv.ok Config.page4k p'' shm'' key = some (p'', shm'') := by
  obtain ⟨s, h, -⟩ := storeProgram_reachable
  have hs := h.inv ranksOK_page4k
  exact ⟨s, h, hs, by decide, Inv.merge_idempotent hs (by decide) 1 1⟩

end FromInv

/-! ## A shared frame

`shareProgram` reaches a state where two siblings map one page read-only onto the frame the first
published; the results of `Reach` are witnessed there as well, on the shared states. -/

/-- Siblings `0` and `1` each allocate a page, store `5` at its first byte and merge it: `0`
publishes the page as frame `1` and `1` joins it. -/
def shareProgram : List Action :=
  [.malloc 0 4096 1, .fault 0 1, .store 0 1 0 5, .mergeNode 0 1,
    .malloc 1 4096 1, .fault 1 1, .store 1 1 0 5, .mergeNode 1 1]

/-- After `shareProgram` both siblings map page `1` read-only onto frame `1`, which has holder bits
`0` and `1`; two siblings are alive and `*sharedPageCount` is `2`. -/
theorem shareProgram_reachable :
    ∃ s, Reachable Config.page4k 2 id (fun _ => .threshold) shareProgram s ∧
      (s.procs 0).mem 1 = .file 1 false ∧ (s.procs 1).mem 1 = .file 1 false ∧
      s.shm.sharingProcessesInfo 1 = 3 ∧ s.shm.aliveProcs = 2 ∧ s.shm.sharedPageCount = 2 := by
  -- sibling `0` allocates page `1` and writes it
  obtain ⟨P, S, h₃, ha, hd, hi, hz, hm, hr, hmet, hinfo, halive, hshared⟩ : ∃ P S,
      Reachable Config.page4k 2 id (fun _ => .threshold) [.malloc 0 4096 1, .fault 0 1, .store 0 1 0 5]
        ((Node.init 2 id fun _ => .threshold).setProc 0 P S) ∧
      P.allocRecord 1 = some 1 ∧ P.dirty 1 = true ∧ P.initializedPagesBV 1 = true ∧
      P.zeroPagesBV 1 = false ∧ P.mem 1 = .anon (Function.update blankPage 0 5) true ∧
      P.myRank = 0 ∧ P.mergeMetric = .threshold ∧ S.sharingProcessesInfo = (fun _ => 0) ∧
      S.aliveProcs = 2 ∧ S.sharedPageCount = 1 := by
    have h₀ : Reachable Config.page4k 2 id (fun _ => .threshold) [] _ := .init
    have h := ((h₀.step (.malloc 0 4096 1) ⟨by decide, le_rfl, by decide,
      fun _ _ => rfl⟩ rfl).step (.fault 0 1) ⟨by decide, rfl⟩ rfl).step (.store 0 1 0 5)
      ⟨by decide, rfl, by decide⟩ rfl
    simp only [Node.setProc_setProc] at h
    exact ⟨_, _, h, rfl, rfl, rfl, rfl, rfl, rfl, rfl, rfl, rfl, rfl⟩
  -- sibling `0` merges page `1`: no other sibling holds frame `1`, so the page is published
  have hready₀ : MergeReady Config.page4k P S :=
    (h₃.inv ranksOK_page4k).mergeReady (q := 0) (by decide)
  have h₄ := h₃.step (.mergeNode 0 1) ⟨by decide, .inl hmet, by rw [Node.setProc_self, ha]; rfl⟩ (by
    rw [hready₀.step_mergeNode_page ha hd, Node.setProc_self, Node.setProc_shm,
      @mergePageRef_priv Config.page4k (P, S, 0) 1 _ _ hi hz (by simp [Proc.Held, hinfo]) hm,
      comparePages_update_blank (by decide) (by decide), if_neg Bool.false_ne_true,
      if_pos (by simp [othersHold, hinfo]), Node.setProc_setProc])
  -- sibling `1` allocates page `1` and writes the same bytes
  obtain ⟨Q, T, h₇, ha₁, hd₁, hi₁, hz₁, hm₁, hr₁, hmet₁, hinfo₁, hframe₁, halive₁, hshared₁⟩ :
      ∃ Q T, Reachable Config.page4k 2 id (fun _ => .threshold)
        ([.malloc 0 4096 1, .fault 0 1, .store 0 1 0 5, .mergeNode 0 1] ++
          [.malloc 1 4096 1, .fault 1 1, .store 1 1 0 5])
        (((Node.init 2 id fun _ => .threshold).setProc 0
          { (publishStep Config.page4k (P, S, 0) 1).1 with dirty := Function.update P.dirty 1 false }
          (publishStep Config.page4k (P, S, 0) 1).2.1).setProc 1 Q T) ∧
      Q.allocRecord 1 = some 1 ∧ Q.dirty 1 = true ∧ Q.initializedPagesBV 1 = true ∧
      Q.zeroPagesBV 1 = false ∧ Q.mem 1 = .anon (Function.update blankPage 0 5) true ∧
      Q.myRank = 1 ∧ Q.mergeMetric = .threshold ∧
      T.sharingProcessesInfo = setSharingBit 8 0 (fun _ => 0) 1 ∧
      T.frames 1 = Function.update blankPage 0 5 ∧ T.aliveProcs = 2 ∧ T.sharedPageCount = 1 := by
    have h := ((h₄.step (.malloc 1 4096 1) ⟨by decide, le_rfl, by decide, fun _ _ => rfl⟩
      rfl).step (.fault 1 1) ⟨by decide, rfl⟩ rfl).step (.store 1 1 0 5) ⟨by decide, rfl, by decide⟩
      rfl
    simp only [Node.setProc_setProc] at h
    refine ⟨_, _, h, rfl, rfl, rfl, rfl, rfl, rfl, rfl, ?_, ?_, halive, hshared⟩
    · show setSharingBit 8 P.myRank S.sharingProcessesInfo 1 = _
      rw [hr, hinfo]
    · show Function.update S.frames 1 (((P.mem 1).content S.frames).getD (S.frames 1)) 1 = _
      rw [Function.update_same, hm]
      rfl
  -- sibling `1` merges page `1`: sibling `0` holds frame `1` with the same bytes, so it joins
  have hready₁ : MergeReady Config.page4k Q T :=
    (h₇.inv ranksOK_page4k).mergeReady (q := 1) (by decide)
  have h₈ : Reachable Config.page4k 2 id (fun _ => .threshold) shareProgram _ :=
    h₇.step (.mergeNode 1 1) ⟨by decide, .inl hmet₁, by rw [Node.setProc_self, ha₁]; rfl⟩ (by
      rw [hready₁.step_mergeNode_page ha₁ hd₁, Node.setProc_self, Node.setProc_shm,
        @mergePageRef_priv Config.page4k (Q, T, 0) 1 _ _ hi₁ hz₁
          (by rw [Proc.Held, hinfo₁, hr₁]; decide) hm₁,
        comparePages_update_blank (by decide) (by decide), if_neg Bool.false_ne_true,
        if_neg (by rw [hr₁, hinfo₁]; decide), hframe₁, comparePages_self, if_pos rfl])
  refine ⟨_, h₈, rfl, rfl, ?_, ?_, ?_⟩ <;>
    simp only [Node.setProc_shm, joinStep, remapPage_eq, hinfo₁, hr₁, halive₁, hshared₁] <;>
    simp [setSharingBit, currProcMask, pop_eq 1, Config.page4k]

theorem shareProgram_live {s : Node}
    (h : Reachable Config.page4k 2 id (fun _ => .threshold) shareProgram s) {q : Nat} (hq : q < 2) :
    (s.procs q).Live 1 := by
  refine ⟨1, 1, ?_, by decide⟩
  rw [((h.inv ranksOK_page4k).refines q hq).regions]
  interval_cases q <;> rfl

/-- Both siblings read the stored byte through the shared frame. -/
theorem reads_match_passthrough_shareProgram :
    ∃ s, Reachable Config.page4k 2 id (fun _ => .threshold) shareProgram s ∧
      (s.procs 0).mem 1 = .file 1 false ∧ (s.procs 1).mem 1 = .file 1 false ∧
      s.readByte 0 1 0 = some 5 ∧ s.readByte 1 1 0 = some 5 := by
  obtain ⟨s, h, h₀, h₁, -⟩ := shareProgram_reachable
  have hb := reads_match_passthrough ranksOK_page4k h
  exact ⟨s, h, h₀, h₁,
    ((hb 0 (by decide)).2 1 0 (shareProgram_live h (by decide)) (by decide)).trans rfl,
    ((hb 1 (by decide)).2 1 0 (shareProgram_live h (by decide)) (by decide)).trans rfl⟩

/-- Sibling `1`'s page is in the shared state: mapped onto frame `1`, which it holds. -/
theorem reachable_page_states_shareProgram :
    ∃ s, Reachable Config.page4k 2 id (fun _ => .threshold) shareProgram s ∧
      (s.procs 1).mem 1 = .file 1 false ∧ (s.procs 1).Held s.shm.sharingProcessesInfo 1 = true ∧
      LiveState 1 ((s.procs 1).initializedPagesBV 1) ((s.procs 1).zeroPagesBV 1)
        ((s.procs 1).Held s.shm.sharingProcessesInfo 1) ((s.procs 1).mem 1) := by
  obtain ⟨s, h, -, h₁, -⟩ := shareProgram_reachable
  obtain ⟨-, -, hp⟩ := reachable_page_states ranksOK_page4k h
  exact ⟨s, h, h₁, (((hp 1 (by decide) 1).2.2 1 false h₁).2 le_rfl).2,
    (hp 1 (by decide) 1).1 (shareProgram_live h (by decide))⟩

/-- The statistics count a frame with two holders. -/
theorem reachable_counted_shareProgram :
    ∃ s, Reachable Config.page4k 2 id (fun _ => .threshold) shareProgram s ∧
      s.shm.sharingProcessesInfo 1 = 3 ∧ s.shm.sharedPageCount = 2 ∧ Counted Config.page4k 2 s := by
  obtain ⟨s, h, -, -, hinfo, -, hshared⟩ := shareProgram_reachable
  exact ⟨s, h, hinfo, hshared, reachable_counted ranksOK_page4k h⟩

end SbllMalloc.SharedHeap
