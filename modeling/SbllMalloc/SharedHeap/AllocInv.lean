import SbllMalloc.SharedHeap.StepInv

/-!
# Allocation and release keep the invariant

`ShmMallocWrapper` maps untouched pages over unmapped pages of the heap window and records the
region; nothing is counted until a page is written. `ShmFreeWrapper` drops the region and unmaps
it, then its loop visits each page once and takes back what that page contributed: the loop is a
sequence of one-page moves (`Moved.foldl`) and ends with no bit left on the region. The holder
count of a held frame moves the statistics exactly as `Counted` counts frames, and under
`MERGE_DISABLED` an initialized page is always private.
-/

namespace SbllMalloc.SharedHeap

variable {cfg : Config} {n : Nat} {A : Pass} {s : Node} {q : Nat}

theorem LiveState.ne_unmapped {i : Nat} {init zero held : Bool} {m : Mapping}
    (h : LiveState i init zero held m) : m ≠ .unmapped := by
  cases h <;> simp

/-- An unmapped page lies in no region and has no bit. -/
theorem Inv.of_unmapped (hs : Inv cfg n A s) (hq : q < n) {i : Nat}
    (hm : (s.procs q).mem i = .unmapped) :
    ¬(s.procs q).Live i ∧ (s.procs q).initializedPagesBV i = false ∧
      (s.procs q).zeroPagesBV i = false ∧ (s.procs q).Held s.shm.sharingProcessesInfo i = false := by
  have hl : ¬(s.procs q).Live i := fun hl => (hs.liveState hq hl).ne_unmapped hm
  obtain ⟨h1, h2, h3, -⟩ := ((hs.sib q hq).pages i).2 hl
  exact ⟨hl, h1, h2, h3⟩

theorem Proc.live_of_update {p p' : Proc} {b : Nat} {v : Option Nat}
    (h : p'.allocRecord = Function.update p.allocRecord b v) {i : Nat} :
    p'.Live i ↔ (∃ size, v = some size ∧ InRange b size i) ∨
      ∃ b' size, b' ≠ b ∧ p.allocRecord b' = some size ∧ InRange b' size i := by
  constructor
  · rintro ⟨b', size, hb', hi⟩
    rw [h] at hb'
    rcases eq_or_ne b' b with rfl | hne
    · rw [Function.update_same] at hb'; exact .inl ⟨size, hb', hi⟩
    · rw [Function.update_noteq hne] at hb'; exact .inr ⟨b', size, hne, hb', hi⟩
  · rintro (⟨size, rfl, hi⟩ | ⟨b', size, hne, hb', hi⟩)
    · exact ⟨b, size, by rw [h, Function.update_same], hi⟩
    · exact ⟨b', size, by rw [h, Function.update_noteq hne]; exact hb', hi⟩

/-! ## Allocation -/

theorem Inv.malloc (hs : Inv cfg n A s) {sz base : Nat} (he : Enabled cfg n s (.malloc q sz base))
    {s' : Node} (h : step MapEnv.ok cfg s (.malloc q sz base) = some s') :
    Inv cfg n (A.step cfg (.malloc q sz base)) s' := by
  obtain ⟨hq, hb, hbnd, hun⟩ := he
  simp only [step, shmMallocWrapper, Option.some.injEq] at h
  subst h
  simp only [Pass.step]
  set size := mallocPages cfg sz with hsize
  by_cases h0 : size = 0
  · simpa [h0] using hs
  have hfree : ∀ i, InRange base size i → ¬(s.procs q).Live i ∧
      (s.procs q).initializedPagesBV i = false ∧ (s.procs q).zeroPagesBV i = false ∧
      (s.procs q).Held s.shm.sharingProcessesInfo i = false := fun i hi => hs.of_unmapped hq (hun i hi)
  have hnone : (s.procs q).allocRecord base = none := by
    cases hr : (s.procs q).allocRecord base with
    | none => rfl
    | some size' =>
      have := ((hs.sib q hq).regions.bounds _ _ hr).1
      exact absurd ⟨base, size', hr, le_refl _, by omega⟩ (hfree base ⟨le_refl _, by omega⟩).1
  have hreg := (hs.refines q hq).regions
  rw [if_neg (by simp [h0, ← hreg, hnone]), if_neg h0]
  simp only [insertRecord, hnone, Option.isSome_none, Bool.false_eq_true, if_false]
  set p' : Proc := { s.procs q with
    allocRecord := Function.update (s.procs q).allocRecord base (some size)
    dirty := Function.update (s.procs q).dirty base false
    mem := mapRange (s.procs q).mem base size fun _ => .anon blankPage false }
  have hR : ∀ i, i ∈ Finset.Ico base (base + size) ↔ InRange base size i := fun i => by
    simp [InRange]
  have hlive : ∀ i, p'.Live i ↔ InRange base size i ∨ (s.procs q).Live i := fun i => by
    rw [Proc.live_of_update (show p'.allocRecord = _ from rfl)]
    refine or_congr (by simp) ⟨fun ⟨b', sz', _, hb', hi⟩ => ⟨b', sz', hb', hi⟩,
      fun ⟨b', sz', hb', hi⟩ => ⟨b', sz', fun he => ?_, hb', hi⟩⟩
    rw [he, hnone] at hb'; exact Option.noConfusion hb'
  have hm : Moved (s.procs q) s.shm p' s.shm (Finset.Ico base (base + size)) :=
    .of_bits ⟨rfl, rfl, rfl, fun _ _ _ => rfl,
      fun i hi => by rw [hlive, or_iff_right (mt (hR i).2 hi)], fun _ _ => rfl, fun _ _ => rfl,
      fun i hi => if_neg (mt (hR i).2 hi), fun _ _ => rfl⟩
      (fun _ _ => rfl) (fun _ _ => rfl) (fun _ _ => rfl) rfl rfl rfl rfl
  refine hs.step_update hq hm (fun i hi => Finset.mem_range.2 (by have := (hR i).1 hi; unfold InRange at this; omega))
    hs.entries (fun _ _ _ h => absurd rfl h) ⟨fun b sz' hb' => ?_, fun b b' s₁ s₂ i h₁ h₂ hi₁ hi₂ => ?_⟩
    (fun i hi => ?_) (fun i hi hz => ?_) (fun i hi hh => ?_) (fun q' _ hne => ?_) ⟨?_, fun i hi => ?_⟩
  · rcases eq_or_ne b base with rfl | hne
    · obtain rfl : size = sz' := by simpa [p'] using hb'
      exact ⟨Nat.pos_of_ne_zero h0, hb, hbnd⟩
    · exact (hs.sib q hq).regions.bounds b sz' (by simpa [p', Function.update_noteq hne] using hb')
  · by_cases e₁ : b = base <;> by_cases e₂ : b' = base
    · rw [e₁, e₂]
    · subst e₁; simp only [p', Function.update_same, Function.update_noteq e₂,
        Option.some.injEq] at h₁ h₂; subst h₁
      exact absurd ⟨b', s₂, h₂, hi₂⟩ (hfree i hi₁).1
    · subst e₂; simp only [p', Function.update_same, Function.update_noteq e₁,
        Option.some.injEq] at h₁ h₂; subst h₂
      exact absurd ⟨b, s₁, h₁, hi₁⟩ (hfree i hi₂).1
    · simp only [p', Function.update_noteq e₁, Function.update_noteq e₂] at h₁ h₂
      exact (hs.sib q hq).regions.disjoint b b' s₁ s₂ i h₁ h₂ hi₁ hi₂
  · have hi' := (hR i).1 hi
    obtain ⟨-, h1, h2, h3⟩ := hfree i hi'
    refine ⟨fun _ => ?_, fun hn => absurd ((hlive i).2 (.inl hi')) hn⟩
    rw [show p'.initializedPagesBV i = false from h1, show p'.zeroPagesBV i = false from h2,
      show p'.Held s.shm.sharingProcessesInfo i = false from h3,
      show p'.mem i = .anon blankPage false from if_pos hi']
    exact .untouched
  · rw [show p'.zeroPagesBV i = false from (hfree i ((hR i).1 hi)).2.2.1] at hz
    exact absurd hz Bool.false_ne_true
  · rw [show p'.Held s.shm.sharingProcessesInfo i = false from (hfree i ((hR i).1 hi)).2.2.2] at hh
    exact absurd hh Bool.false_ne_true
  · exact ⟨Function.update_noteq hne _ _, funext fun j => if_neg fun h => hne h.1⟩
  · simp [p', hreg]
  · by_cases hin : InRange base size i
    · exact ⟨blankPage, by simp [p', mapRange, hin], fun o _ => by simp [hin]⟩
    · obtain ⟨c, hc, hco⟩ := (hs.refines q hq).bytes i (((hlive i).1 hi).resolve_left hin)
      exact ⟨c, by rw [show p'.mem i = (s.procs q).mem i from if_neg hin]; exact hc,
        fun o ho => by simp [hin, hco o ho]⟩

/-! ## The release loop -/

/-- What the release loop needs of a page it has not visited: the sibling's bit fits the entry,
a held page is initialized and not zero, and an uninitialized page is not zero. -/
structure FreeReady (cfg : Config) (p : Proc) (shm : Shm) (j : Nat) : Prop where
  rank : p.myRank < cfg.numProc
  entry : shm.sharingProcessesInfo j < 2 ^ cfg.numProc
  held : p.Held shm.sharingProcessesInfo j = true →
    p.initializedPagesBV j = true ∧ p.zeroPagesBV j = false
  uninit : p.initializedPagesBV j = false → p.zeroPagesBV j = false

/-- A page the release loop has visited: no bit is left and the entry still fits. -/
def Released (cfg : Config) (p : Proc) (shm : Shm) (j : Nat) : Prop :=
  p.initializedPagesBV j = false ∧ p.zeroPagesBV j = false ∧
    p.Held shm.sharingProcessesInfo j = false ∧ shm.sharingProcessesInfo j < 2 ^ cfg.numProc

theorem FreeReady.pageLocal : PageLocal (FreeReady cfg) := fun _ _ _ _ _ j hc hj h =>
  ⟨hc.rank ▸ h.rank, (hc.info j hj).symm ▸ h.entry,
    fun hh => by rw [hc.init j hj, hc.zero j hj]; exact h.held (hc.held hj ▸ hh),
    fun hi => by rw [hc.zero j hj]; exact h.uninit (hc.init j hj ▸ hi)⟩

theorem Released.pageLocal : PageLocal (Released cfg) := fun _ _ _ _ _ j hc hj h =>
  ⟨(hc.init j hj).trans h.1, (hc.zero j hj).trans h.2.1, (hc.held hj).trans h.2.2.1,
    (hc.info j hj).symm ▸ h.2.2.2⟩

variable {p : Proc} {shm : Shm} {j : Nat}

/-- One round of the release loop takes back what page `j` contributed. -/
theorem freePage_moved (h : FreeReady cfg p shm j) :
    Moved p shm (freePage cfg (p, shm) j).1 (freePage cfg (p, shm) j).2 {j} ∧
      Released cfg (freePage cfg (p, shm) j).1 (freePage cfg (p, shm) j).2 j := by
  have hw := cfg.numProc_le
  have hr : p.myRank < 64 := by have := h.rank; omega
  have hne : ∀ k, k ≠ j → ∀ f : Nat → Bool, Function.update f j false k = f k :=
    fun k hk f => Function.update_noteq hk _ _
  cases hi : p.initializedPagesBV j
  · -- an untouched page: only the initialized bit is reset
    have hz := h.uninit hi
    have hh : p.Held shm.sharingProcessesInfo j = false := by
      cases hh : p.Held shm.sharingProcessesInfo j
      · rfl
      · simp [(h.held hh).1] at hi
    simp only [freePage, resetAndReturnBit, hi, Bool.not_false, if_true]
    refine ⟨.single (.of_page rfl rfl rfl rfl (fun k hk => hne k hk _) (fun _ _ => rfl)
      (fun _ _ => rfl) (fun _ _ => rfl) fun _ _ => rfl) (by simp)
      (by simp [privTerm, Proc.IsPrivate, hi]) (by simp [baseTerm, hi]) (by simp [zeroTerm]),
      Function.update_same _ _ _, hz, hh, h.entry⟩
  cases hz : p.zeroPagesBV j
  · cases hh : p.Held shm.sharingProcessesInfo j
    · -- a private page
      simp only [Proc.Held] at hh
      simp only [freePage, resetAndReturnBit, hi, hz, hh, getSharingBit_eq, Bool.not_true,
        Bool.false_eq_true, if_false]
      refine ⟨.single (.of_page rfl rfl rfl rfl (fun k hk => hne k hk _) (fun k hk => hne k hk _)
        (fun _ _ => rfl) (fun _ _ => rfl) fun _ _ => rfl) (by simp)
        (by simp [privTerm, Proc.IsPrivate, Proc.Held, hi, hz, hh]; ring) (by simp [baseTerm, hi, sub_eq_add_neg])
        (by simp [zeroTerm, hz]), Function.update_same _ _ _, Function.update_same _ _ _, hh,
        h.entry⟩
    · -- a held page: the holder count decides the statistics
      simp only [Proc.Held] at hh
      have hpop := pop_unsetSharingBit h.entry hw hr hh
      simp only [freePage, resetAndReturnBit, hi, hz, hh, getSharingBit_eq, Bool.not_true,
        Bool.false_eq_true, if_false, if_true, releaseCounters_eq, countSharingProcs_eq]
      refine ⟨.single (.of_page rfl rfl rfl rfl (fun k hk => hne k hk _) (fun k hk => hne k hk _)
        (fun _ _ => rfl) (fun k hk => Function.update_noteq hk _ _) fun m hm => ?_) ?_ ?_
        (by simp [baseTerm, hi, sub_eq_add_neg]) (by simp [zeroTerm, hz]), Function.update_same _ _ _,
        Function.update_same _ _ _, ?_, unsetSharingBit_lt h.entry _ _⟩
      · rw [unsetSharingBit_testBit h.entry hw hr]; simp [hm]
      · simp only [sharedTerm]; split_ifs <;> omega
      · simp only [privTerm, Proc.IsPrivate, Proc.Held, Function.update_same, hz, hh]
        simp only [Bool.false_and, Bool.not_true, Bool.and_false, Bool.false_eq_true, if_false]
        split_ifs <;> omega
      · simp [Proc.Held, unsetSharingBit_testBit h.entry hw hr]
  · -- a zero page
    have hh : p.Held shm.sharingProcessesInfo j = false := by
      cases hh : p.Held shm.sharingProcessesInfo j
      · rfl
      · simp [(h.held hh).2] at hz
    simp only [freePage, resetAndReturnBit, hi, hz, Bool.not_true, Bool.false_eq_true, if_false,
      if_true]
    refine ⟨.single (.of_page rfl rfl rfl rfl (fun k hk => hne k hk _) (fun k hk => hne k hk _)
      (fun _ _ => rfl) (fun _ _ => rfl) fun _ _ => rfl) (by simp)
      (by simp [privTerm, Proc.IsPrivate, hi, hz]) (by simp [baseTerm, hi, sub_eq_add_neg])
      (by simp [zeroTerm, hz, sub_eq_add_neg]), Function.update_same _ _ _, Function.update_same _ _ _, hh, h.entry⟩

/-- Under `MERGE_DISABLED` a page the release loop has not visited has no zero bit and no
holder bit. -/
def FreeReadyDisabled (cfg : Config) (p : Proc) (shm : Shm) (j : Nat) : Prop :=
  p.zeroPagesBV j = false ∧ p.Held shm.sharingProcessesInfo j = false ∧
    shm.sharingProcessesInfo j < 2 ^ cfg.numProc

theorem FreeReadyDisabled.pageLocal : PageLocal (FreeReadyDisabled cfg) :=
  fun _ _ _ _ _ j hc hj h =>
    ⟨(hc.zero j hj).trans h.1, (hc.held hj).trans h.2.1, (hc.info j hj).symm ▸ h.2.2⟩

/-- One round of the release loop under `MERGE_DISABLED` takes back a private page. -/
theorem freePageDisabled_moved (h : FreeReadyDisabled cfg p shm j) :
    Moved p shm (freePageDisabled (p, shm) j).1 (freePageDisabled (p, shm) j).2 {j} ∧
      Released cfg (freePageDisabled (p, shm) j).1 (freePageDisabled (p, shm) j).2 j := by
  obtain ⟨hz, hh, he⟩ := h
  have hc : Confined p shm { p with initializedPagesBV := Function.update p.initializedPagesBV j false }
      shm {j} :=
    .of_page rfl rfl rfl rfl (fun k hk => Function.update_noteq hk _ _) (fun _ _ => rfl)
      (fun _ _ => rfl) (fun _ _ => rfl) fun _ _ => rfl
  have hc' : Confined p shm { p with initializedPagesBV := Function.update p.initializedPagesBV j false }
      { shm with baseCaseTotalPageCount := shm.baseCaseTotalPageCount - 1,
                 allProcPrivatePageCount := shm.allProcPrivatePageCount - 1 } {j} :=
    .of_page rfl rfl rfl rfl (fun k hk => Function.update_noteq hk _ _) (fun _ _ => rfl)
      (fun _ _ => rfl) (fun _ _ => rfl) fun _ _ => rfl
  have hRel : ∀ shm' : Shm, shm'.sharingProcessesInfo = shm.sharingProcessesInfo →
      Released cfg { p with initializedPagesBV := Function.update p.initializedPagesBV j false }
        shm' j := fun shm' e => ⟨Function.update_same _ _ _, hz, by rw [e]; exact hh, e ▸ he⟩
  simp only [Proc.Held] at hh
  cases hi : p.initializedPagesBV j
  · simp only [freePageDisabled, resetAndReturnBit, hi, Bool.false_eq_true, if_false]
    exact ⟨.single hc (by simp) (by simp [privTerm, Proc.IsPrivate, hi]) (by simp [baseTerm, hi])
      (by simp [zeroTerm]), hRel shm rfl⟩
  · simp only [freePageDisabled, resetAndReturnBit, hi, if_true]
    exact ⟨.single hc' (by simp)
      (by simp [privTerm, Proc.IsPrivate, Proc.Held, hi, hz, hh, sub_eq_add_neg])
      (by simp [baseTerm, hi, sub_eq_add_neg]) (by simp [zeroTerm]), hRel _ rfl⟩

/-- The release loop changes no region, no mapping and no frame. -/
theorem freePage_frame (st : Proc × Shm) (j : Nat) :
    (freePage cfg st j).1.allocRecord = st.1.allocRecord ∧ (freePage cfg st j).1.mem = st.1.mem ∧
      (freePage cfg st j).2.frames = st.2.frames := by
  obtain ⟨p, shm⟩ := st
  simp only [freePage, resetAndReturnBit]
  split_ifs <;> simp [releaseCounters_eq]

theorem freePageDisabled_frame (st : Proc × Shm) (j : Nat) :
    (freePageDisabled st j).1.allocRecord = st.1.allocRecord ∧
      (freePageDisabled st j).1.mem = st.1.mem ∧ (freePageDisabled st j).2.frames = st.2.frames := by
  obtain ⟨p, shm⟩ := st
  simp only [freePageDisabled, resetAndReturnBit]
  split_ifs <;> simp

/-! ## Release -/

/-- The release loop starts ready on every page. -/
theorem Inv.freeReady (hs : Inv cfg n A s) (hq : q < n) (j : Nat) :
    FreeReady cfg (s.procs q) s.shm j := by
  refine ⟨hs.rank_lt q hq, hs.entries j, fun hh => ?_, fun hi => ?_⟩
  · exact (hs.liveState hq (((hs.sib q hq).pages j).live_of_held hh).1).of_held hh
  · by_cases hl : (s.procs q).Live j
    · exact (hs.liveState hq hl).zero_of_uninit hi
    · exact (((hs.sib q hq).pages j).2 hl).2.1

/-- The node after the release loop: the region is gone, its pages are unmapped and have no bit
left, and the loop moved the statistics by what those pages contributed. -/
theorem Inv.free_of_loop (hs : Inv cfg n A s) (hq : q < n) {ptr size : Nat}
    (hr : (s.procs q).allocRecord ptr = some size) {pf : Proc} {shmf : Shm}
    (hm : Moved { s.procs q with
        allocRecord := Function.update (s.procs q).allocRecord ptr none
        mem := mapRange (s.procs q).mem ptr size fun _ => .unmapped }
      s.shm pf shmf (List.range' ptr size).toFinset)
    (halloc : pf.allocRecord = Function.update (s.procs q).allocRecord ptr none)
    (hmem : pf.mem = mapRange (s.procs q).mem ptr size fun _ => .unmapped)
    (hframes : shmf.frames = s.shm.frames)
    (hdone : ∀ j ∈ List.range' ptr size, Released cfg pf shmf j) :
    Inv cfg n ⟨Function.update A.regions q (Function.update (A.regions q) ptr none), A.bytes⟩
      (s.setProc q pf shmf) := by
  have hR : ∀ j, j ∈ (List.range' ptr size).toFinset ↔ InRange ptr size j := fun j => by
    simp [List.mem_range'_1, InRange]
  have hbnd := (hs.sib q hq).regions.bounds _ _ hr
  have hlive : ∀ {p' : Proc}, p'.allocRecord = Function.update (s.procs q).allocRecord ptr none →
      ∀ i, p'.Live i ↔ (s.procs q).Live i ∧ ¬InRange ptr size i := by
    intro p' hp' i
    rw [Proc.live_of_update hp']
    constructor
    · rintro (⟨_, h, _⟩ | ⟨b, sz, hne, hb, hi⟩)
      · exact absurd h (by simp)
      · exact ⟨⟨b, sz, hb, hi⟩, fun hin =>
          hne ((hs.sib q hq).regions.disjoint _ _ _ _ i hb hr hi hin)⟩
    · rintro ⟨⟨b, sz, hb, hi⟩, hin⟩
      refine .inr ⟨b, sz, fun e => hin ?_, hb, hi⟩
      subst e; rw [hr, Option.some.injEq] at hb; exact hb ▸ hi
  have h₀ : Moved (s.procs q) s.shm { s.procs q with
      allocRecord := Function.update (s.procs q).allocRecord ptr none
      mem := mapRange (s.procs q).mem ptr size fun _ => .unmapped } s.shm
      (List.range' ptr size).toFinset :=
    .of_bits ⟨rfl, rfl, rfl, fun _ _ _ => rfl,
      fun i hi => by rw [hlive rfl, and_iff_left (mt (hR i).2 hi)], fun _ _ => rfl,
      fun _ _ => rfl, fun i hi => if_neg (mt (hR i).2 hi), fun _ _ => rfl⟩
      (fun _ _ => rfl) (fun _ _ => rfl) (fun _ _ => rfl) rfl rfl rfl rfl
  have hmove := h₀.trans hm
  rw [Finset.union_self] at hmove
  refine hs.step_update hq hmove
    (fun i hi => Finset.mem_range.2 (by have := (hR i).1 hi; unfold InRange at this; omega))
    (fun k => ?_) (fun _ _ _ h => absurd (congrFun hframes _ ▸ rfl) h)
    ⟨fun b sz hb => ?_, fun b b' s₁ s₂ i h₁ h₂ hi₁ hi₂ => ?_⟩ (fun i hi => ?_)
    (fun i hi hz => ?_) (fun i hi hh => ?_) (fun q' _ hne => ⟨Function.update_noteq hne _ _, rfl⟩)
    ⟨by simp [halloc, (hs.refines q hq).regions], fun i hi => ?_⟩
  · by_cases hk : k ∈ (List.range' ptr size).toFinset
    · exact (hdone k (List.mem_toFinset.1 hk)).2.2.2
    · rw [hmove.info k hk]; exact hs.entries k
  · have hne : b ≠ ptr := by rintro rfl; simp [halloc] at hb
    exact (hs.sib q hq).regions.bounds b sz (by rwa [halloc, Function.update_noteq hne] at hb)
  · have hne₁ : b ≠ ptr := by rintro rfl; simp [halloc] at h₁
    have hne₂ : b' ≠ ptr := by rintro rfl; simp [halloc] at h₂
    rw [halloc, Function.update_noteq hne₁] at h₁
    rw [halloc, Function.update_noteq hne₂] at h₂
    exact (hs.sib q hq).regions.disjoint b b' s₁ s₂ i h₁ h₂ hi₁ hi₂
  · obtain ⟨h1, h2, h3, -⟩ := hdone i (List.mem_toFinset.1 hi)
    exact ⟨fun hl => absurd ((hR i).1 hi) ((hlive halloc i).1 hl).2,
      fun _ => ⟨h1, h2, h3, by rw [hmem]; exact if_pos ((hR i).1 hi)⟩⟩
  · rw [(hdone i (List.mem_toFinset.1 hi)).2.1] at hz; exact absurd hz Bool.false_ne_true
  · rw [(hdone i (List.mem_toFinset.1 hi)).2.2.1] at hh; exact absurd hh Bool.false_ne_true
  · obtain ⟨hl, hin⟩ := (hlive halloc i).1 hi
    obtain ⟨c, hc, hco⟩ := (hs.refines q hq).bytes i hl
    exact ⟨c, by rw [hmem, hframes, mapRange_of_not_inRange _ hin]; exact hc, hco⟩

/-- The release loop, merging enabled, over distinct pages of the sibling `p₂` that
`ShmFreeWrapper` hands it (bits and rank as before): each page is released, the move is
confined to the pages, and no region, mapping or frame changes. -/
theorem Inv.freePage_loop (hs : Inv cfg n A s) (hq : q < n) (p₂ : Proc)
    (hrank : p₂.myRank = (s.procs q).myRank)
    (hinit : p₂.initializedPagesBV = (s.procs q).initializedPagesBV)
    (hzero : p₂.zeroPagesBV = (s.procs q).zeroPagesBV) {l : List Nat} (hl : l.Nodup) :
    ((l.foldl (freePage cfg) (p₂, s.shm)).1.allocRecord = p₂.allocRecord ∧
      (l.foldl (freePage cfg) (p₂, s.shm)).1.mem = p₂.mem ∧
      (l.foldl (freePage cfg) (p₂, s.shm)).2.frames = s.shm.frames) ∧
    Moved p₂ s.shm (l.foldl (freePage cfg) (p₂, s.shm)).1 (l.foldl (freePage cfg) (p₂, s.shm)).2
      l.toFinset ∧
    ∀ j ∈ l, Released cfg (l.foldl (freePage cfg) (p₂, s.shm)).1
      (l.foldl (freePage cfg) (p₂, s.shm)).2 j :=
  Moved.foldl Prod.fst Prod.snd (freePage cfg)
    (fun st => st.1.allocRecord = p₂.allocRecord ∧ st.1.mem = p₂.mem ∧ st.2.frames = s.shm.frames)
    (FreeReady.pageLocal : PageLocal (FreeReady cfg)) Released.pageLocal
    (fun ⟨p, shm⟩ j hG hP => by
      obtain ⟨h1, h2, h3⟩ := freePage_frame (p, shm) j
      exact ⟨⟨h1.trans hG.1, h2.trans hG.2.1, h3.trans hG.2.2⟩, freePage_moved hP⟩)
    l (p₂, s.shm) hl ⟨rfl, rfl, rfl⟩
    fun j _ => let h := hs.freeReady hq j
      ⟨hrank ▸ h.rank, h.entry, by rw [Proc.Held, hrank, hinit, hzero]; exact h.held,
        by rw [hinit, hzero]; exact h.uninit⟩

/-- The release loop under `MERGE_DISABLED`, as `Inv.freePage_loop`. -/
theorem Inv.freePageDisabled_loop (hs : Inv cfg n A s) (hq : q < n) (p₂ : Proc)
    (hrank : p₂.myRank = (s.procs q).myRank) (hzero : p₂.zeroPagesBV = (s.procs q).zeroPagesBV)
    (hmet : (s.procs q).mergeMetric = .mergeDisabled) {l : List Nat} (hl : l.Nodup) :
    ((l.foldl freePageDisabled (p₂, s.shm)).1.allocRecord = p₂.allocRecord ∧
      (l.foldl freePageDisabled (p₂, s.shm)).1.mem = p₂.mem ∧
      (l.foldl freePageDisabled (p₂, s.shm)).2.frames = s.shm.frames) ∧
    Moved p₂ s.shm (l.foldl freePageDisabled (p₂, s.shm)).1
      (l.foldl freePageDisabled (p₂, s.shm)).2 l.toFinset ∧
    ∀ j ∈ l, Released cfg (l.foldl freePageDisabled (p₂, s.shm)).1
      (l.foldl freePageDisabled (p₂, s.shm)).2 j :=
  Moved.foldl Prod.fst Prod.snd freePageDisabled
    (fun st => st.1.allocRecord = p₂.allocRecord ∧ st.1.mem = p₂.mem ∧ st.2.frames = s.shm.frames)
    (FreeReadyDisabled.pageLocal : PageLocal (FreeReadyDisabled cfg)) Released.pageLocal
    (fun ⟨p, shm⟩ j hG hP => by
      obtain ⟨h1, h2, h3⟩ := freePageDisabled_frame (p, shm) j
      exact ⟨⟨h1.trans hG.1, h2.trans hG.2.1, h3.trans hG.2.2⟩, freePageDisabled_moved hP⟩)
    l (p₂, s.shm) hl ⟨rfl, rfl, rfl⟩
    fun j _ => ⟨hzero ▸ (hs.sib q hq).noZero (.inr hmet) j,
      by rw [Proc.Held, hrank]; exact (hs.sib q hq).noHeld hmet j, hs.entries j⟩

/-- `ShmFreeWrapper` of a region base returns `1` after the release loop, with merging or without,
over the region's pages: each page is released, the move is confined to them, and besides the
dropped key and the unmapped region no region, mapping or frame changes. -/
theorem Inv.shmFreeWrapper_of_region (hs : Inv cfg n A s) (hq : q < n) {ptr size : Nat}
    (hr : (s.procs q).allocRecord ptr = some size) :
    ∃ pf shmf, shmFreeWrapper cfg (s.procs q) s.shm ptr = (pf, shmf, 1) ∧
      (pf.allocRecord = Function.update (s.procs q).allocRecord ptr none ∧
        pf.mem = mapRange (s.procs q).mem ptr size (fun _ => .unmapped) ∧
        shmf.frames = s.shm.frames) ∧
      Moved { s.procs q with
          allocRecord := Function.update (s.procs q).allocRecord ptr none
          mem := mapRange (s.procs q).mem ptr size fun _ => .unmapped }
        s.shm pf shmf (List.range' ptr size).toFinset ∧
      ∀ j ∈ List.range' ptr size, Released cfg pf shmf j := by
  set p₂ : Proc := { s.procs q with
    allocRecord := Function.update (s.procs q).allocRecord ptr none
    mem := mapRange (s.procs q).mem ptr size fun _ => .unmapped }
  simp only [shmFreeWrapper, hr, Option.getD_some,
    if_neg ((hs.sib q hq).regions.bounds _ _ hr).1.ne']
  split_ifs with hmet
  · exact ⟨_, _, rfl, hs.freePage_loop hq p₂ rfl rfl rfl (List.nodup_range' ptr size)⟩
  · exact ⟨_, _, rfl,
      hs.freePageDisabled_loop hq p₂ rfl rfl (not_not.1 hmet) (List.nodup_range' ptr size)⟩

theorem Inv.free (hs : Inv cfg n A s) {ptr : Nat} (he : Enabled cfg n s (.free q ptr)) {s' : Node}
    (h : step MapEnv.ok cfg s (.free q ptr) = some s') :
    Inv cfg n (A.step cfg (.free q ptr)) s' := by
  have hq : q < n := he
  simp only [step, Option.some.injEq] at h
  subst h
  simp only [Pass.step]
  cases hr : (s.procs q).allocRecord ptr with
  | none =>
    -- not a region base: `ShmFreeWrapper` returns `-1` and nothing changes
    have e : Function.update (s.procs q).allocRecord ptr none = (s.procs q).allocRecord :=
      Function.update_eq_self_iff.2 hr.symm
    have eA : Function.update (A.regions q) ptr none = A.regions q := by
      rw [← (hs.refines q hq).regions, e]
    simp only [shmFreeWrapper, hr, Option.getD_none, if_true, e, eA, Function.update_eq_self]
    exact (Node.setProc_eq_self s q).symm ▸ hs
  | some size =>
    obtain ⟨pf, shmf, hres, ⟨halloc, hmem, hframes⟩, hm, hdone⟩ := hs.shmFreeWrapper_of_region hq hr
    rw [hres]
    exact hs.free_of_loop hq hr hm halloc hmem hframes hdone

end SbllMalloc.SharedHeap
