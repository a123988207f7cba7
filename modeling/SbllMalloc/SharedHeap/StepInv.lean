import SbllMalloc.SharedHeap.Inv

/-!
# Stores and write faults keep the invariant

A store reaches only a private page, and rewrites one of its bytes. A write fault reaches a
read-only mapped page of a live region, which is untouched, zero or shared; each branch of
`SigSegvHandler` turns it into a private page with the same bytes and moves the statistics by
exactly the change of the counts. In the shared branch the holders left are the other holders
of the frame, all of them siblings, so `ASSERTX(sh_cnt <= *aliveProcs)` holds.
-/

namespace SbllMalloc.SharedHeap

variable {cfg : Config} {n : Nat} {A : Pass} {s : Node} {q : Nat}

theorem Inv.window (hs : Inv cfg n A s) (hq : q < n) {i : Nat} (hl : (s.procs q).Live i) :
    i ∈ cfg.window ∧ 1 ≤ i := by
  obtain ⟨b, size, hb, hi⟩ := hl
  obtain ⟨-, h1, h2⟩ := (hs.sib q hq).regions.bounds b size hb
  exact ⟨Finset.mem_range.2 (by unfold InRange at hi; omega), by unfold InRange at hi; omega⟩

theorem Inv.liveState (hs : Inv cfg n A s) (hq : q < n) {i : Nat} (hl : (s.procs q).Live i) :
    LiveState i ((s.procs q).initializedPagesBV i) ((s.procs q).zeroPagesBV i)
      ((s.procs q).Held s.shm.sharingProcessesInfo i) ((s.procs q).mem i) :=
  ((hs.sib q hq).pages i).1 hl

/-- A mapped page lies in a live region. -/
theorem Inv.live_of_mapped (hs : Inv cfg n A s) (hq : q < n) {i : Nat}
    (hm : (s.procs q).mem i ≠ .unmapped) : (s.procs q).Live i :=
  ((hs.sib q hq).pages i).live_of_mapped hm

/-- An initialized page lies in a live region. -/
theorem Inv.live_of_init (hs : Inv cfg n A s) (hq : q < n) {i : Nat}
    (hi : (s.procs q).initializedPagesBV i = true) : (s.procs q).Live i :=
  Classical.byContradiction fun hl => by
    rw [(((hs.sib q hq).pages i).2 hl).1] at hi; exact Bool.false_ne_true hi

/-- The holders of a frame are distinct siblings, so there are at most `n` of them. -/
theorem Inv.pop_le (hs : Inv cfg n A s) (i : Nat) : pop (s.shm.sharingProcessesInfo i) ≤ n := by
  refine (pop_le_card (hs.entries i) (S := (Finset.range n).image fun q => (s.procs q).myRank)
    fun j hj => ?_).trans Finset.card_image_le |>.trans (by simp)
  obtain ⟨q, hq, rfl⟩ := hs.holders i j hj
  exact Finset.mem_image.2 ⟨q, Finset.mem_range.2 hq, rfl⟩

/-- A holder that drops its bit leaves at most `*aliveProcs` holders: `ASSERTX(sh_cnt <=
*aliveProcs)` holds. -/
theorem Inv.pop_unset_le (hs : Inv cfg n A s) (hq : q < n) {i : Nat}
    (hh : (s.shm.sharingProcessesInfo i).testBit (s.procs q).myRank = true) :
    (pop (unsetSharingBit cfg.numProc (s.procs q).myRank s.shm.sharingProcessesInfo i i) : Int) ≤
      s.shm.aliveProcs := by
  have := pop_unsetSharingBit (hs.entries i) cfg.numProc_le
    (by have := hs.rank_lt q hq; have := cfg.numProc_le; omega) hh
  have := hs.pop_le i; rw [hs.alive]; omega

/-! ## Stores -/

theorem Inv.store (hs : Inv cfg n A s) (hq : q < n) {i o : Nat} {v : UInt8}
    (hw : ((s.procs q).mem i).writable = true) {s' : Node}
    (h : step MapEnv.ok cfg s (.store q i o v) = some s') :
    Inv cfg n (A.step cfg (.store q i o v)) s' := by
  have hl := hs.live_of_mapped hq (by intro hm; rw [hm] at hw; simp [Mapping.writable] at hw)
  obtain ⟨c, hc, hinit, hzero, hheld⟩ := (hs.liveState hq hl).of_writable hw
  simp only [step, storeByte, hc, Option.bind_eq_bind, Option.some_bind, Option.some.injEq] at h
  subst h
  set p' : Proc := { s.procs q with
    mem := Function.update (s.procs q).mem i (.anon (Function.update c o v) true) } with hp'
  have hout : ∀ j, j ∉ ({i} : Finset Nat) → p'.mem j = (s.procs q).mem j := fun j hj =>
    Function.update_noteq (by simpa using hj) _ _
  refine hs.step_update hq (R := {i}) (Moved.of_bits ⟨rfl, rfl, rfl, fun _ _ _ => rfl,
      fun _ _ => Iff.rfl, fun _ _ => rfl, fun _ _ => rfl, hout, fun _ _ => rfl⟩
      (fun _ _ => rfl) (fun _ _ => rfl) (fun _ _ => rfl) rfl rfl rfl rfl)
    (by simpa using (hs.window hq hl).1) hs.entries (fun _ _ _ h => absurd rfl h)
    (hs.sib q hq).regions (fun j hj => ?_) (fun j hj hz => ?_) (fun j hj hh => ?_)
    (fun q' _ hne => by simp [Pass.step, Function.update_noteq hne]) ⟨?_, fun j hj => ?_⟩
  · rw [Finset.mem_singleton.1 hj]
    refine ⟨fun _ => ?_, fun hn => absurd hl hn⟩
    rw [show p'.initializedPagesBV i = true from hinit, show p'.zeroPagesBV i = false from hzero,
      show p'.Held s.shm.sharingProcessesInfo i = false from hheld,
      show p'.mem i = .anon (Function.update c o v) true from Function.update_same _ _ _]
    exact .priv _
  · rw [Finset.mem_singleton.1 hj] at hz; exact absurd (hzero ▸ hz) (by simp)
  · rw [Finset.mem_singleton.1 hj] at hh; exact absurd (hheld ▸ hh) (by simp)
  · simp [Pass.step, (hs.refines q hq).regions]
  · obtain ⟨c', hc', hco⟩ := (hs.refines q hq).bytes j hj
    by_cases hji : j = i
    · subst hji
      refine ⟨Function.update c o v, by simp [p'], fun o' ho' => ?_⟩
      rw [hc] at hc'; simp only [Mapping.content_anon, Option.some.injEq] at hc'; subst hc'
      by_cases hoo : o' = o
      · subst hoo; simp [Pass.step]
      · simp [Pass.step, Function.update_noteq hoo, hco o' ho']
    · refine ⟨c', by rw [hout j (by simpa using hji)]; exact hc', fun o' ho' => ?_⟩
      simp [Pass.step, Function.update_noteq hji, hco o' ho']

/-! ## Write faults -/

/-- Page `i` of sibling `q` becomes private with the bytes `c`, its holder bit cleared if it
was set: what every branch of `SigSegvHandler` leaves. -/
theorem Inv.to_private (hs : Inv cfg n A s) (hq : q < n) {i : Nat} (hl : (s.procs q).Live i)
    (c : Page) (hc : ∀ o < cfg.pageSize, c o = A.bytes q i o) (d : Nat → Bool) (zc : Int)
    {p' : Proc} (hp' : p' = { s.procs q with
      dirty := d
      initializedPagesBV := Function.update (s.procs q).initializedPagesBV i true
      zeroPagesBV := Function.update (s.procs q).zeroPagesBV i false
      zeroPageCount := zc
      mem := Function.update (s.procs q).mem i (.anon c true) })
    {shm' : Shm} (hframes : shm'.frames = s.shm.frames) (halive : shm'.aliveProcs = s.shm.aliveProcs)
    (hinfo : ((s.procs q).Held s.shm.sharingProcessesInfo i = false ∧
        shm'.sharingProcessesInfo = s.shm.sharingProcessesInfo) ∨
      ((s.procs q).Held s.shm.sharingProcessesInfo i = true ∧ shm'.sharingProcessesInfo =
        unsetSharingBit cfg.numProc (s.procs q).myRank s.shm.sharingProcessesInfo i))
    (hshared : shm'.sharedPageCount = s.shm.sharedPageCount +
      (sharedTerm shm'.sharingProcessesInfo i - sharedTerm s.shm.sharingProcessesInfo i))
    (hpriv : shm'.allProcPrivatePageCount = s.shm.allProcPrivatePageCount +
      ((1 - (if (s.procs q).IsPrivate s.shm.sharingProcessesInfo i then 1 else 0)) +
        ((if pop (shm'.sharingProcessesInfo i) = 1 then 1 else 0) -
          (if pop (s.shm.sharingProcessesInfo i) = 1 then 1 else 0))))
    (hbase : shm'.baseCaseTotalPageCount = s.shm.baseCaseTotalPageCount +
      (1 - baseTerm (s.procs q) i))
    (hzc : zc = (s.procs q).zeroPageCount - zeroTerm (s.procs q) i) :
    Inv cfg n A (s.setProc q p' shm') := by
  subst hp'
  set p' : Proc := { s.procs q with
      dirty := d
      initializedPagesBV := Function.update (s.procs q).initializedPagesBV i true
      zeroPagesBV := Function.update (s.procs q).zeroPagesBV i false
      zeroPageCount := zc
      mem := Function.update (s.procs q).mem i (.anon c true) }
  have hr := hs.rank_lt q hq
  have hw := cfg.numProc_le
  have hout : ∀ j, j ∉ ({i} : Finset Nat) → j ≠ i := fun j hj => by simpa using hj
  -- the holder entries: as they were, or with the holder bit of page `i` cleared
  obtain ⟨hbits, hheld', hinfo_out, hentries⟩ :
      (∀ k j, j ≠ (s.procs q).myRank →
        (shm'.sharingProcessesInfo k).testBit j = (s.shm.sharingProcessesInfo k).testBit j) ∧
      p'.Held shm'.sharingProcessesInfo i = false ∧
      (∀ j, j ∉ ({i} : Finset Nat) → shm'.sharingProcessesInfo j = s.shm.sharingProcessesInfo j) ∧
      ∀ k, shm'.sharingProcessesInfo k < 2 ^ cfg.numProc := by
    rcases hinfo with ⟨hh, he⟩ | ⟨-, he⟩ <;> rw [he]
    · exact ⟨fun _ _ _ => rfl, hh, fun _ _ => rfl, hs.entries⟩
    · refine ⟨fun k j hj => ?_, ?_, fun j hj => ?_, fun k => unsetSharingBit_lt (hs.entries k) _ _⟩
      · rw [unsetSharingBit_testBit (hs.entries i) hw (by omega)]; simp [hj]
      · rw [Proc.Held, unsetSharingBit_testBit (hs.entries i) hw (by omega)]; simp
      · rw [unsetSharingBit, Function.update_noteq (hout j hj)]
  have hm : Moved (s.procs q) s.shm p' shm' {i} := by
    refine .single ⟨rfl, rfl, halive, hbits, fun _ _ => Iff.rfl,
      fun j hj => Function.update_noteq (hout j hj) _ _, fun j hj => Function.update_noteq (hout j hj) _ _,
      fun j hj => Function.update_noteq (hout j hj) _ _, hinfo_out⟩ hshared ?_ ?_ ?_
    · rw [hpriv, privTerm, privTerm]; simp [p', Proc.IsPrivate, hheld']; ring
    · rw [hbase]; simp [p', baseTerm]
    · simp [p', hzc, zeroTerm, sub_eq_add_neg]
  refine hs.step_update hq hm
    (by simpa using (hs.window hq hl).1) hentries (fun f o _ h => by rw [hframes] at h; exact absurd rfl h)
    (hs.sib q hq).regions (fun j hj => ?_) (fun j hj hz => ?_) (fun j hj hh => ?_)
    (fun _ _ _ => ⟨rfl, rfl⟩) ⟨(hs.refines q hq).regions, fun j hj => ?_⟩
  · rw [Finset.mem_singleton.1 hj]
    refine ⟨fun _ => ?_, fun hn => absurd hl hn⟩
    rw [show p'.initializedPagesBV i = true from Function.update_same _ _ _,
      show p'.zeroPagesBV i = false from Function.update_same _ _ _, hheld',
      show p'.mem i = .anon c true from Function.update_same _ _ _]
    exact .priv c
  · rw [Finset.mem_singleton.1 hj] at hz; simp [p'] at hz
  · rw [Finset.mem_singleton.1 hj] at hh; rw [hheld'] at hh; exact absurd hh (by simp)
  · by_cases hji : j = i
    · subst hji; exact ⟨c, by simp [p'], hc⟩
    · obtain ⟨c', hc', hco⟩ := (hs.refines q hq).bytes j hj
      exact ⟨c', by simp only [p', Function.update_noteq hji, hframes]; exact hc', hco⟩

theorem Inv.fault (hs : Inv cfg n A s) (hq : q < n) {i : Nat}
    (hf : ((s.procs q).mem i).faultsOnWrite = true) {s' : Node}
    (h : step MapEnv.ok cfg s (.fault q i) = some s') :
    Inv cfg n (A.step cfg (.fault q i)) s' := by
  have hl := hs.live_of_mapped hq (by intro hm; rw [hm] at hf; simp [Mapping.faultsOnWrite] at hf)
  obtain ⟨c, hc, hco⟩ := (hs.refines q hq).bytes i hl
  simp only [step, Pass.step, Option.bind_eq_bind] at h ⊢
  rcases (hs.liveState hq hl).of_faults hf with ⟨h1, h2, h3, h4⟩ | ⟨h1, h2, h3, h4⟩ | ⟨h1, h2, h3, h4⟩
  · -- first write: the untouched page opens read-write
    have e : Function.update (s.procs q).zeroPagesBV i false = (s.procs q).zeroPagesBV :=
      Function.update_eq_self_iff.2 h2.symm
    rw [sigSegvHandler_first _ _ _ h1] at h
    simp only [Option.some_bind, Option.some.injEq] at h; subst h
    rw [h4, Mapping.content_anon, Option.some.injEq] at hc; subst hc
    refine hs.to_private hq hl blankPage hco (markDirty (s.procs q) i) (s.procs q).zeroPageCount
      ?_ rfl rfl (.inl ⟨h3, rfl⟩) (by simp) (by simp [Proc.IsPrivate, h1]) (by simp [baseTerm, h1])
      (by simp [zeroTerm, h2])
    rw [e, h4, Mapping.protect_anon]
  · -- zero page: a fresh page of zeros
    rw [sigSegvHandler_zero _ _ _ h1 h2] at h
    simp only [Option.some_bind, Option.some.injEq] at h; subst h
    rw [h4, Mapping.content_file, Option.some.injEq] at hc; subst hc
    refine hs.to_private hq hl blankPage (fun o ho => ?_) _ _ rfl rfl rfl (.inl ⟨h3, rfl⟩)
      (by simp) (by simp [Proc.IsPrivate, h2]) (by simp [baseTerm, h1]) (by simp [zeroTerm, h2])
    rw [← hco o ho, hs.frame0 o ho]; rfl
  · -- shared page: a private copy of the frame, one holder less
    have hr := hs.rank_lt q hq
    have e : Function.update (s.procs q).zeroPagesBV i false = (s.procs q).zeroPagesBV :=
      Function.update_eq_self_iff.2 h2.symm
    have hw := cfg.numProc_le
    have hpop := pop_unsetSharingBit (hs.entries i) hw (by omega) h3
    rw [sigSegvHandler_shared _ _ _ h1 h2 h3 (unshareCounters_of_le _ (hs.pop_unset_le hq h3)) hc] at h
    simp only [Option.some_bind, Option.some.injEq] at h; subst h
    refine hs.to_private hq hl c hco (markDirty (s.procs q) i) (s.procs q).zeroPageCount
      ?_ rfl rfl (.inr ⟨h3, rfl⟩) ?_ ?_ (by simp [baseTerm, h1]) (by simp [zeroTerm, h2])
    · rw [e]
    · simp only [sharedTerm]
      split_ifs <;> omega
    · simp only [Proc.IsPrivate, h3, Bool.not_true, Bool.and_false, Bool.false_eq_true, if_false]
      dsimp only
      split_ifs <;> omega

end SbllMalloc.SharedHeap
