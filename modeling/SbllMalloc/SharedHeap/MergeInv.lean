import SbllMalloc.SharedHeap.AllocInv

/-!
# The merge actions keep the invariant

Each merge action turns a run of private pages of one sibling into zero pages (`RemapToZero`),
into pages it alone holds (`CopyAndRemapRegion`, and `MergePages` on a page no other sibling
holds) or into pages it holds with the siblings that hold their frames (`RemapRegion`, and
`MergePages` on an equal page). `Inv.run_update` gives the invariant after such an update from
the new states of the run's pages and the bytes they read: the frames a publish writes are
frames nobody held, so no other mapping sees them change.
-/

namespace SbllMalloc.SharedHeap

variable {cfg : Config} {n : Nat} {A : Pass} {s : Node} {q : Nat}

/-- Page `j` of the sibling is private: live, initialized, not zero, not held, and mapped
read-write. -/
def Proc.Priv (info : Nat → Nat) (p : Proc) (j : Nat) : Prop :=
  p.Live j ∧ p.initializedPagesBV j = true ∧ p.zeroPagesBV j = false ∧ p.Held info j = false

theorem Inv.priv_mem (hs : Inv cfg n A s) (hq : q < n) {j : Nat}
    (h : (s.procs q).Priv s.shm.sharingProcessesInfo j) : ∃ c, (s.procs q).mem j = .anon c true :=
  (hs.liveState hq h.1).of_priv h.2.1 h.2.2.1 h.2.2.2

/-- The invariant after sibling `q` moves the pages `R` of its regions to new states, given the
bytes they read: frames change only where nobody held them. -/
theorem Inv.run_update (hs : Inv cfg n A s) (hq : q < n) {R : Finset Nat}
    (hlive : ∀ j ∈ R, (s.procs q).Live j) {p' : Proc} {shm' : Shm}
    (hm : Moved (s.procs q) s.shm p' shm' R) (halloc : p'.allocRecord = (s.procs q).allocRecord)
    (hentries : ∀ j, shm'.sharingProcessesInfo j < 2 ^ cfg.numProc)
    (hframes : ∀ f, ∀ o < cfg.pageSize, shm'.frames f o ≠ s.shm.frames f o →
      f ∈ R ∧ s.shm.sharingProcessesInfo f = 0)
    (hnew : ∀ j ∈ R, LiveState j (p'.initializedPagesBV j) (p'.zeroPagesBV j)
      (p'.Held shm'.sharingProcessesInfo j) (p'.mem j))
    (hzero : ∀ j ∈ R, p'.zeroPagesBV j = true →
      (s.procs q).mergeMetric = .threshold ∨ (s.procs q).mergeMetric = .allocFrequency)
    (hheld : ∀ j ∈ R, p'.Held shm'.sharingProcessesInfo j = true →
      (s.procs q).mergeMetric ≠ .mergeDisabled)
    (hbytes : ∀ j ∈ R, ∀ c, ((s.procs q).mem j).content s.shm.frames = some c →
      ∃ c', (p'.mem j).content shm'.frames = some c' ∧ ∀ o < cfg.pageSize, c' o = c o) :
    Inv cfg n A (s.setProc q p' shm') := by
  have hlive' : ∀ j, p'.Live j ↔ (s.procs q).Live j := fun j => by simp only [Proc.Live, halloc]
  have hR : ∀ j ∈ R, 1 ≤ j := fun j hj => (hs.window hq (hlive j hj)).2
  refine hs.step_update hq hm (fun j hj => (hs.window hq (hlive j hj)).1) hentries
    (fun f o ho h => ?_) (halloc ▸ (hs.sib q hq).regions)
    (fun j hj => ⟨fun _ => hnew j hj, fun hn => absurd ((hlive' j).2 (hlive j hj)) hn⟩)
    hzero hheld (fun _ _ _ => ⟨rfl, rfl⟩) ⟨halloc.trans (hs.refines q hq).regions, fun j hj => ?_⟩
  · obtain ⟨hf, h0⟩ := hframes f o ho h
    refine ⟨by have := hR f hf; omega, fun k hk => ?_⟩
    rw [h0, Nat.zero_testBit] at hk; exact absurd hk Bool.false_ne_true
  · obtain ⟨c, hc, hco⟩ := (hs.refines q hq).bytes j ((hlive' j).1 hj)
    by_cases hjR : j ∈ R
    · obtain ⟨c', hc', hcc⟩ := hbytes j hjR c hc
      exact ⟨c', hc', fun o ho => (hcc o ho).trans (hco o ho)⟩
    · -- an untouched page reads frame `0` or its own frame, neither of which a publish writes
      have hagree : ∀ f, (f = 0 ∨ f = j) → ∀ o < cfg.pageSize, shm'.frames f o = s.shm.frames f o :=
        fun f hf o ho => by
          by_contra h
          obtain ⟨hfR, -⟩ := hframes f o ho h
          rcases hf with rfl | rfl
          · exact absurd (hR 0 hfR) (by omega)
          · exact hjR hfR
      rw [hm.mem j hjR]
      rcases (hs.liveState hq ((hlive' j).1 hj)).mapping with ⟨c', w, hmj⟩ | hmj | ⟨hmj, -⟩
      · exact ⟨c, by rw [hmj] at hc ⊢; exact hc, hco⟩
      · rw [hmj, Mapping.content_file, Option.some.injEq] at hc
        exact ⟨shm'.frames 0, by rw [hmj]; rfl, fun o ho => by
          rw [hagree 0 (.inl rfl) o ho, hc, hco o ho]⟩
      · rw [hmj, Mapping.content_file, Option.some.injEq] at hc
        exact ⟨shm'.frames j, by rw [hmj]; rfl, fun o ho => by
          rw [hagree j (.inr rfl) o ho, hc, hco o ho]⟩

theorem sum_Ico_const {a size : Nat} {f : Nat → Int} {c : Int}
    (h : ∀ j, InRange a size j → f j = c) : ∑ j ∈ Finset.Ico a (a + size), f j = size * c := by
  rw [Finset.sum_congr rfl fun j hj => h j (Finset.mem_Ico.1 hj), Finset.sum_const, Nat.card_Ico]
  simp

/-! ## `RemapToZero` -/

/-- `RemapToZero` on a run of private pages that read zeros: each becomes a zero page, one
private page less and one zero page more. -/
theorem Inv.toZero (hs : Inv cfg n A s) (hq : q < n) {a size : Nat}
    (hrun : ∀ j, InRange a size j → (s.procs q).Priv s.shm.sharingProcessesInfo j ∧
      ∀ c, ((s.procs q).mem j).content s.shm.frames = some c → ∀ o < cfg.pageSize, c o = 0)
    (hmetric : (s.procs q).mergeMetric = .threshold ∨ (s.procs q).mergeMetric = .allocFrequency) :
    Moved (s.procs q) s.shm { s.procs q with
        mem := mapRange (s.procs q).mem a size fun _ => .file 0 false
        zeroPageCount := (s.procs q).zeroPageCount + size
        zeroPagesBV := fun j => (s.procs q).zeroPagesBV j || decide (InRange a size j) }
      { s.shm with allProcPrivatePageCount := s.shm.allProcPrivatePageCount - size }
      (Finset.Ico a (a + size)) ∧
    Inv cfg n A (s.setProc q { s.procs q with
        mem := mapRange (s.procs q).mem a size fun _ => .file 0 false
        zeroPageCount := (s.procs q).zeroPageCount + size
        zeroPagesBV := fun j => (s.procs q).zeroPagesBV j || decide (InRange a size j) }
      { s.shm with allProcPrivatePageCount := s.shm.allProcPrivatePageCount - size }) := by
  have hout : ∀ j, j ∉ Finset.Ico a (a + size) → ¬InRange a size j := fun j hj h =>
    hj (Finset.mem_Ico.2 h)
  have hm : Moved (s.procs q) s.shm { s.procs q with
        mem := mapRange (s.procs q).mem a size fun _ => .file 0 false
        zeroPageCount := (s.procs q).zeroPageCount + size
        zeroPagesBV := fun j => (s.procs q).zeroPagesBV j || decide (InRange a size j) }
      { s.shm with allProcPrivatePageCount := s.shm.allProcPrivatePageCount - size }
      (Finset.Ico a (a + size)) := by
    refine ⟨⟨rfl, rfl, rfl, fun _ _ _ => rfl, fun _ _ => Iff.rfl, fun _ _ => rfl,
      fun j hj => by simp [hout j hj], fun j hj => if_neg (hout j hj), fun _ _ => rfl⟩,
      by simp, ?_, by simp [baseTerm], ?_⟩
    · rw [sum_Ico_const (c := -1) fun j hj => ?_]
      · ring
      · obtain ⟨-, h1, h2, h3⟩ := (hrun j hj).1
        simp only [Proc.Held] at h3
        simp [privTerm, Proc.IsPrivate, Proc.Held, h1, h2, h3, hj]
    · rw [sum_Ico_const (c := 1) fun j hj => ?_]
      · ring
      · simp [zeroTerm, (hrun j hj).1.2.2.1, hj]
  refine ⟨hm, hs.run_update hq (fun j hj => (hrun j (Finset.mem_Ico.1 hj)).1.1) hm rfl hs.entries
    (fun _ _ _ h => absurd rfl h) (fun j hj => ?_) (fun _ _ _ => hmetric)
    (fun _ _ _ => by rcases hmetric with h | h <;> rw [h] <;> simp) (fun j hj c hc => ?_)⟩
  · have hj' : InRange a size j := Finset.mem_Ico.1 hj
    obtain ⟨-, h1, -, h3⟩ := (hrun j hj').1
    have e : ({ s.procs q with
        mem := mapRange (s.procs q).mem a size fun _ => .file 0 false
        zeroPageCount := (s.procs q).zeroPageCount + size
        zeroPagesBV := fun j => (s.procs q).zeroPagesBV j || decide (InRange a size j) } : Proc).Held
        s.shm.sharingProcessesInfo j = false := h3
    simp only [h1, hj', decide_True, Bool.or_true, e, mapRange_of_inRange _ hj']
    exact .zero
  · refine ⟨s.shm.frames 0, by simp [mapRange_of_inRange _ (Finset.mem_Ico.1 hj)],
      fun o ho => ?_⟩
    rw [hs.frame0 o ho, (hrun j (Finset.mem_Ico.1 hj)).2 c hc o ho]

/-! ## Publishing pages nobody holds -/

/-- `CopyAndRemapRegion` on a run of private pages whose frames nobody holds: each frame gets the
page's bytes and the sibling becomes its only holder. The statistics do not move: a private page
becomes a frame with one holder. -/
theorem Inv.publish (hs : Inv cfg n A s) (hq : q < n) {a size : Nat}
    (hrun : ∀ j, InRange a size j → (s.procs q).Priv s.shm.sharingProcessesInfo j ∧
      s.shm.sharingProcessesInfo j = 0)
    (hmetric : (s.procs q).mergeMetric ≠ .mergeDisabled) :
    Moved (s.procs q) s.shm { s.procs q with mem := mapRange (s.procs q).mem a size fun j => .file j false }
      { s.shm with
        frames := fun f => if InRange a size f then
            (((s.procs q).mem f).content s.shm.frames).getD (s.shm.frames f) else s.shm.frames f
        sharingProcessesInfo := fun k => if InRange a size k then
            (s.shm.sharingProcessesInfo k ||| currProcMask (s.procs q).myRank) % 2 ^ cfg.numProc
          else s.shm.sharingProcessesInfo k }
      (Finset.Ico a (a + size)) ∧
    Inv cfg n A (s.setProc q { s.procs q with mem := mapRange (s.procs q).mem a size fun j => .file j false }
      { s.shm with
        frames := fun f => if InRange a size f then
            (((s.procs q).mem f).content s.shm.frames).getD (s.shm.frames f) else s.shm.frames f
        sharingProcessesInfo := fun k => if InRange a size k then
            (s.shm.sharingProcessesInfo k ||| currProcMask (s.procs q).myRank) % 2 ^ cfg.numProc
          else s.shm.sharingProcessesInfo k }) := by
  set p' : Proc := { s.procs q with mem := mapRange (s.procs q).mem a size fun j => .file j false }
  set shm' : Shm := { s.shm with
    frames := fun f => if InRange a size f then
        (((s.procs q).mem f).content s.shm.frames).getD (s.shm.frames f) else s.shm.frames f
    sharingProcessesInfo := fun k => if InRange a size k then
        (s.shm.sharingProcessesInfo k ||| currProcMask (s.procs q).myRank) % 2 ^ cfg.numProc
      else s.shm.sharingProcessesInfo k }
  have hr := hs.rank_lt q hq
  have hout : ∀ j, j ∉ Finset.Ico a (a + size) → ¬InRange a size j := fun j hj h =>
    hj (Finset.mem_Ico.2 h)
  have hinfo : ∀ j, InRange a size j → shm'.sharingProcessesInfo j = 2 ^ (s.procs q).myRank :=
    fun j hj => by
      simp only [shm', if_pos hj]
      rw [(hrun j hj).2, Nat.zero_or, currProcMask,
        Nat.mod_eq_of_lt (Nat.pow_lt_pow_right (by norm_num) hr)]
  have hm : Moved (s.procs q) s.shm p' shm' (Finset.Ico a (a + size)) := by
    refine ⟨⟨rfl, rfl, rfl, fun k m hm => ?_, fun _ _ => Iff.rfl, fun _ _ => rfl, fun _ _ => rfl,
      fun j hj => if_neg (hout j hj), fun j hj => if_neg (hout j hj)⟩, ?_, ?_, by simp [baseTerm],
      by simp [zeroTerm]⟩
    · by_cases hk : InRange a size k
      · rw [hinfo k hk, (hrun k hk).2, Nat.testBit_two_pow, Nat.zero_testBit]; simp [Ne.symm hm]
      · exact congrArg (Nat.testBit · m) (if_neg hk)
    · rw [Finset.sum_eq_zero fun j hj => ?_, add_zero]
      have hj' : InRange a size j := Finset.mem_Ico.1 hj
      rw [sharedTerm, sharedTerm, hinfo j hj', (hrun j hj').2]; simp
    · rw [Finset.sum_eq_zero fun j hj => ?_, add_zero]
      have hj' : InRange a size j := Finset.mem_Ico.1 hj
      obtain ⟨-, h1, h2, -⟩ := (hrun j hj').1
      rw [privTerm, privTerm, Proc.IsPrivate, Proc.IsPrivate, Proc.Held, Proc.Held, hinfo j hj',
        (hrun j hj').2]
      simp [Nat.testBit_two_pow, p', h1, h2]
  refine ⟨hm, hs.run_update hq (fun j hj => (hrun j (Finset.mem_Ico.1 hj)).1.1) hm rfl
    (fun k => ?_) (fun f o _ h => ?_) (fun j hj => ?_) (fun j hj hz => ?_) (fun _ _ _ => hmetric)
    (fun j hj c hc => ?_)⟩
  · by_cases hk : InRange a size k
    · rw [hinfo k hk]; exact Nat.pow_lt_pow_right (by norm_num) hr
    · simp only [shm', if_neg hk]; exact hs.entries k
  · by_cases hf : InRange a size f
    · exact ⟨Finset.mem_Ico.2 hf, (hrun f hf).2⟩
    · exact absurd (by simp only [shm', if_neg hf]) h
  · have hj' : InRange a size j := Finset.mem_Ico.1 hj
    obtain ⟨-, h1, h2, -⟩ := (hrun j hj').1
    rw [show p'.initializedPagesBV j = true from h1, show p'.zeroPagesBV j = false from h2,
      show p'.Held shm'.sharingProcessesInfo j = true by
        rw [Proc.Held, hinfo j hj', Nat.testBit_two_pow]; simp,
      show p'.mem j = .file j false from if_pos hj']
    exact .shared
  · rw [show p'.zeroPagesBV j = false from (hrun j (Finset.mem_Ico.1 hj)).1.2.2.1] at hz
    exact absurd hz Bool.false_ne_true
  · have hj' : InRange a size j := Finset.mem_Ico.1 hj
    exact ⟨c, by simp [p', shm', mapRange_of_inRange _ hj', hj', hc], fun _ _ => rfl⟩

/-! ## Joining frames other siblings hold -/

/-- What a round of the loop of `RemapRegion` needs of its page: the sibling's bit fits, the page
is private and its frame has a holder. -/
def ShareReady (cfg : Config) (p : Proc) (shm : Shm) (j : Nat) : Prop :=
  p.myRank < cfg.numProc ∧ shm.sharingProcessesInfo j < 2 ^ cfg.numProc ∧
    p.IsPrivate shm.sharingProcessesInfo j = true ∧ 0 < pop (shm.sharingProcessesInfo j)

/-- A page the loop of `RemapRegion` has visited: the sibling holds its frame. -/
def Joined (cfg : Config) (p : Proc) (shm : Shm) (j : Nat) : Prop :=
  p.Held shm.sharingProcessesInfo j = true ∧ shm.sharingProcessesInfo j < 2 ^ cfg.numProc

theorem ShareReady.pageLocal : PageLocal (ShareReady cfg) := fun _ _ _ _ _ j hc hj h => by
  obtain ⟨h1, h2, h3, h4⟩ := h
  refine ⟨hc.rank ▸ h1, (hc.info j hj).symm ▸ h2, ?_, (hc.info j hj).symm ▸ h4⟩
  rw [Proc.IsPrivate, hc.init j hj, hc.zero j hj, hc.held hj]; exact h3

theorem Joined.pageLocal : PageLocal (Joined cfg) := fun _ _ _ _ _ j hc hj h =>
  ⟨(hc.held hj).trans h.1, (hc.info j hj).symm ▸ h.2⟩

/-- One round of the loop of `RemapRegion`: the page stops being private and its frame gains a
holder, shared once it has two. -/
theorem remapPage_moved {p : Proc} {shm : Shm} {j : Nat} (h : ShareReady cfg p shm j) :
    Moved p shm p (remapPage cfg p.myRank shm j) {j} ∧ Joined cfg p (remapPage cfg p.myRank shm j) j ∧
      (remapPage cfg p.myRank shm j).frames = shm.frames := by
  obtain ⟨hr, he, hpriv, hpos⟩ := h
  have hb : (shm.sharingProcessesInfo j).testBit p.myRank = false := by
    simp only [Proc.IsPrivate, Proc.Held, Bool.and_eq_true, Bool.not_eq_true'] at hpriv
    exact hpriv.2
  have hpop := pop_setSharingBit he hr hb
  have hheld : p.Held (setSharingBit cfg.numProc p.myRank shm.sharingProcessesInfo j) j = true := by
    simp only [Proc.Held]; rw [setSharingBit_testBit he hr]; simp
  rw [remapPage_eq]
  refine ⟨.single (.of_page rfl rfl rfl rfl (fun _ _ => rfl) (fun _ _ => rfl) (fun _ _ => rfl)
      (fun k hk => Function.update_noteq hk _ _)
      fun m hm => by dsimp only; rw [setSharingBit_testBit he hr]; simp [hm]) ?_ ?_
      (by simp [baseTerm]) (by simp [zeroTerm]), ⟨hheld, setSharingBit_lt he _ _⟩, rfl⟩
  · simp only [sharedTerm, hpop]
    split_ifs <;> omega
  · simp only [privTerm, hpop, hpriv, if_true]
    simp only [Proc.IsPrivate, hheld, Bool.not_true, Bool.and_false, Bool.false_eq_true, if_false]
    split_ifs <;> omega

/-- `RemapRegion` on a run of private pages whose frames other siblings hold with the same
bytes: the sibling joins each frame. -/
theorem Inv.join (hs : Inv cfg n A s) (hq : q < n) {a size : Nat}
    (hrun : ∀ j, InRange a size j → (s.procs q).Priv s.shm.sharingProcessesInfo j ∧
      0 < pop (s.shm.sharingProcessesInfo j) ∧
      ∀ c, ((s.procs q).mem j).content s.shm.frames = some c →
        ∀ o < cfg.pageSize, s.shm.frames j o = c o)
    (hmetric : (s.procs q).mergeMetric ≠ .mergeDisabled) :
    Moved (s.procs q) s.shm { s.procs q with mem := mapRange (s.procs q).mem a size fun j => .file j false }
      ((List.range' a size).foldl (remapPage cfg (s.procs q).myRank) s.shm)
      (Finset.Ico a (a + size)) ∧
    Inv cfg n A (s.setProc q { s.procs q with mem := mapRange (s.procs q).mem a size fun j => .file j false }
      ((List.range' a size).foldl (remapPage cfg (s.procs q).myRank) s.shm)) := by
  set p' : Proc := { s.procs q with mem := mapRange (s.procs q).mem a size fun j => .file j false }
  set shm' := (List.range' a size).foldl (remapPage cfg (s.procs q).myRank) s.shm
  obtain ⟨hG, hm₁, hQ⟩ := Moved.foldl (fun _ => s.procs q) id (remapPage cfg (s.procs q).myRank)
    (fun shm₁ => shm₁.frames = s.shm.frames) (ShareReady.pageLocal : PageLocal (ShareReady cfg))
    (Joined.pageLocal : PageLocal (Joined cfg))
    (fun shm₁ j hG hP => let h := remapPage_moved hP; ⟨h.2.2.trans hG, h.1, h.2.1⟩)
    (List.range' a size) s.shm (List.nodup_range' _ _) rfl fun j hj => by
      have hj' : InRange a size j := by simpa [List.mem_range'_1, InRange] using hj
      obtain ⟨⟨-, h1, h2, h3⟩, hpos, -⟩ := hrun j hj'
      exact ⟨hs.rank_lt q hq, hs.entries j, by simp [Proc.IsPrivate, h1, h2, h3], hpos⟩
  rw [toFinset_range'] at hm₁
  have hout : ∀ j, j ∉ Finset.Ico a (a + size) → ¬InRange a size j := fun j hj h =>
    hj (Finset.mem_Ico.2 h)
  have hm₂ : Moved (s.procs q) shm' p' shm' (Finset.Ico a (a + size)) :=
    .of_bits ⟨rfl, rfl, rfl, fun _ _ _ => rfl, fun _ _ => Iff.rfl, fun _ _ => rfl, fun _ _ => rfl,
      fun j hj => if_neg (hout j hj), fun _ _ => rfl⟩
      (fun _ _ => rfl) (fun _ _ => rfl) (fun _ _ => rfl) rfl rfl rfl rfl
  have hm := hm₁.trans hm₂
  rw [Finset.union_self] at hm
  have hQ' : ∀ j, InRange a size j → Joined cfg (s.procs q) shm' j := fun j hj =>
    hQ j (by simpa [List.mem_range'_1, InRange] using hj)
  refine ⟨hm, hs.run_update hq (fun j hj => (hrun j (Finset.mem_Ico.1 hj)).1.1) hm rfl
    (fun k => ?_) (fun f o _ h => absurd (by rw [hG]) h) (fun j hj => ?_) (fun j hj hz => ?_)
    (fun _ _ _ => hmetric) (fun j hj c hc => ?_)⟩
  · by_cases hk : InRange a size k
    · exact (hQ' k hk).2
    · rw [hm.info k fun h => hk (Finset.mem_Ico.1 h)]; exact hs.entries k
  · have hj' : InRange a size j := Finset.mem_Ico.1 hj
    obtain ⟨⟨-, h1, h2, -⟩, -⟩ := hrun j hj'
    rw [show p'.initializedPagesBV j = true from h1, show p'.zeroPagesBV j = false from h2,
      show p'.Held shm'.sharingProcessesInfo j = true from (hQ' j hj').1,
      show p'.mem j = .file j false from if_pos hj']
    exact .shared
  · rw [show p'.zeroPagesBV j = false from (hrun j (Finset.mem_Ico.1 hj)).1.2.2.1] at hz
    exact absurd hz Bool.false_ne_true
  · have hj' : InRange a size j := Finset.mem_Ico.1 hj
    exact ⟨shm'.frames j, by rw [show p'.mem j = .file j false from if_pos hj']; rfl,
      fun o ho => by rw [hG]; exact (hrun j hj').2.2 c hc o ho⟩

/-! ## `MergePages` -/

theorem update_eq_mapRange (mem : Nat → Mapping) (i : Nat) :
    Function.update mem i (.file i false) = mapRange mem i 1 fun j => .file j false := by
  funext j
  by_cases hj : j = i
  · subst hj; simp [mapRange, InRange]
  · rw [Function.update_noteq hj, mapRange_of_not_inRange]; simp [InRange]; omega

theorem setSharingBit_eq_ite (w r : Nat) (info : Nat → Nat) (i : Nat) :
    setSharingBit w r info i =
      fun k => if InRange i 1 k then (info k ||| currProcMask r) % 2 ^ w else info k := by
  funext k
  by_cases hk : k = i
  · subst hk; simp [setSharingBit, InRange]
  · rw [setSharingBit, Function.update_noteq hk, if_neg]; simp [InRange]; omega

/-- `MergePages` on an initialized page under `BUFFERED`: a held page stays, a page nobody else
holds is published, and a page equal to the frame others hold joins it. -/
theorem Inv.mergePage (hs : Inv cfg n A s) {i : Nat} (he : Enabled cfg n s (.mergePage q i))
    {s' : Node} (h : step MapEnv.ok cfg s (.mergePage q i) = some s') :
    Inv cfg n (A.step cfg (.mergePage q i)) s' := by
  obtain ⟨hq, hmet, hinit⟩ := he
  simp only [Pass.step, step] at h ⊢
  have hl := hs.live_of_init hq hinit
  have hz := (hs.sib q hq).noZero (.inl hmet) i
  have hr : (s.procs q).myRank < 64 := by have := hs.rank_lt q hq; have := cfg.numProc_le; omega
  have h64 : s.shm.sharingProcessesInfo i < 2 ^ 64 :=
    (hs.entries i).trans_le (Nat.pow_le_pow_right (by norm_num) cfg.numProc_le)
  cases hh : (s.procs q).Held s.shm.sharingProcessesInfo i
  · -- not held: the page is private
    obtain ⟨c, hc⟩ := hs.priv_mem hq ⟨hl, hinit, hz, hh⟩
    have hpriv : ∀ j, InRange i 1 j → (s.procs q).Priv s.shm.sharingProcessesInfo j := fun j hj => by
      obtain rfl : j = i := by unfold InRange at hj; omega
      exact ⟨hl, hinit, hz, hh⟩
    simp only [Proc.Held] at hh
    have hcont : ((s.procs q).mem i).content s.shm.frames = some c := by rw [hc]; rfl
    cases ho : isOtherSharing (s.procs q).myRank s.shm.sharingProcessesInfo i
    · -- nobody else holds the frame: publish the page
      rw [mergePages_publish cfg _ _ hh ho hcont] at h
      simp only [Option.bind_eq_bind, Option.some_bind, Option.some.injEq] at h
      subst h
      have hi0 := eq_zero_of_not_isOtherSharing hr h64 hh ho
      have hframes : Function.update s.shm.frames i c = fun f => if InRange i 1 f then
          (((s.procs q).mem f).content s.shm.frames).getD (s.shm.frames f) else s.shm.frames f := by
        funext f
        by_cases hf : f = i
        · subst hf; simp [InRange, hcont]
        · rw [Function.update_noteq hf, if_neg]; unfold InRange; omega
      rw [update_eq_mapRange, hframes, setSharingBit_eq_ite]
      refine (hs.publish hq (fun j hj => ⟨hpriv j hj, ?_⟩) (by rw [hmet]; simp)).2
      obtain rfl : j = i := by unfold InRange at hj; omega
      exact hi0
    · cases heq : comparePages cfg.pageSize (s.shm.frames i) c
      · -- the frame holds other bytes: nothing to do
        rw [mergePages_differ cfg _ _ hh ho hcont heq] at h
        simp only [Option.bind_eq_bind, Option.some_bind, Option.some.injEq] at h
        subst h; simpa using hs
      · -- the frame holds the same bytes: join it
        rw [mergePages_join cfg _ _ hh ho hcont heq] at h
        simp only [Option.bind_eq_bind, Option.some_bind, Option.some.injEq] at h
        subst h
        rw [update_eq_mapRange, show remapPage cfg (s.procs q).myRank s.shm i =
          (List.range' i 1).foldl (remapPage cfg (s.procs q).myRank) s.shm from rfl]
        refine (hs.join hq (fun j hj => ?_) (by rw [hmet]; simp)).2
        obtain rfl : j = i := by unfold InRange at hj; omega
        refine ⟨hpriv j hj, pop_pos_of_isOtherSharing hr h64 ho, fun c' hc' o ho => ?_⟩
        rw [hcont, Option.some.injEq] at hc'
        subst hc'
        exact (comparePages_iff.1 heq) o ho
  · -- held: nothing to do
    simp only [Proc.Held] at hh
    rw [mergePages_held cfg _ _ hh] at h
    simp only [Option.bind_eq_bind, Option.some_bind, Option.some.injEq] at h
    subst h; simpa using hs

end SbllMalloc.SharedHeap
