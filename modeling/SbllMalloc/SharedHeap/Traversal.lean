import SbllMalloc.SharedHeap.ControlRuns

/-!
# A merge traversal

`MergeByALLOC_FREQUENCY` and `MergeByTHRESHOLD` do their work as one traversal,
`TraverseAVL(allocRecord, MergeNode2)`, which calls `MergeNode2` on every region base of the
allocation index in key order (`regionKeys`, `Reachable.traverseAVL_keys`). This file gives the
traversal's postcondition, for a traversal that no other sibling interrupts.

`Reachable.mergeNode_region` is one call: the region comes out clean, every page of it is merged
(`Merged`) if it was dirty, and nothing outside the region moves. `Reachable.mergeNode_pass`
chains the calls over distinct region bases: a page of a region merged earlier stays merged,
because the later regions are disjoint from it (`RegionsOK.disjoint`) and a merge changes only
its own pages (`mergePageRef_local`). `Reachable.traversal_merges` is the whole traversal: every
region clean, every page of a region that was dirty merged, and a second traversal right after
changes nothing (`steps_mergeNode_clean`).
-/

namespace SbllMalloc.SharedHeap

section Traversal

variable {cfg : Config} {n : Nat} {rank : Nat → Nat} {metric : Nat → MergeMetric}

/-- The per-page merge keeps the dirty flags. -/
theorem mergeRef_dirty (p : Proc) (shm : Shm) (startAddr size : Nat) :
    (mergeRef cfg p shm startAddr size).1.dirty = p.dirty :=
  foldl_fst_eq Proc.dirty (f := mergePageRef cfg) (fun ⟨p, shm, cnt⟩ j => by
    rcases mergePageRef_cases cfg (p, shm, cnt) j with e | ⟨-, e | e | e⟩ <;> rw [e] <;> rfl) _ _

/-- `MergeNode2` on a region of the allocation index, from a reachable state: the region comes
out clean and, if it was dirty, with every page merged; no page outside it moves. -/
theorem Reachable.mergeNode_region (hr : RanksOK cfg n rank) {acts : List Action} {s : Node}
    (h : Reachable cfg n rank metric acts s) {q key size : Nat} (hq : q < n)
    (hmet : (s.procs q).mergeMetric = .threshold ∨ (s.procs q).mergeMetric = .allocFrequency)
    (ha : (s.procs q).allocRecord key = some size) :
    ∃ s', Reachable cfg n rank metric (acts ++ [.mergeNode q key]) s' ∧
      (s'.procs q).allocRecord = (s.procs q).allocRecord ∧
      (s'.procs q).dirty = Function.update (s.procs q).dirty key false ∧
      ((s.procs q).dirty key = true → ∀ j, InRange key size j → Merged cfg (s'.procs q) s'.shm j) ∧
      (∀ j, ¬InRange key size j → (s'.procs q).myRank = (s.procs q).myRank ∧
        PageAgree (s'.procs q, s'.shm, 0) (s.procs q, s.shm, 0) j) ∧
      ∀ q', q' ≠ q → s'.procs q' = s.procs q' := by
  have hs := h.inv hr
  have hready := hs.mergeReady hq
  have he : Enabled cfg n s (.mergeNode q key) := ⟨hq, hmet, by simp [ha]⟩
  cases hd : (s.procs q).dirty key
  · -- a clean region: `MergeNode2` returns at once
    have hstep : SharedHeap.step MapEnv.ok cfg s (.mergeNode q key) = some s := by
      simp [step_mergeNode, mergeNode2, ha, hd]
    exact ⟨s, h.step _ he hstep, rfl, by rw [← hd, Function.update_eq_self], nofun,
      fun j _ => ⟨rfl, PageAgree.refl _ j⟩, fun _ _ => rfl⟩
  · -- a dirty region: the per-page merge of its pages, then marked clean
    set st := mergeRef cfg (s.procs q) s.shm key size
    have hmn : mergeNode2 MapEnv.ok cfg (s.procs q) s.shm key =
        some ({ st.1 with dirty := Function.update st.1.dirty key false }, st.2.1) := by
      rw [mergeNode2_dirty _ _ _ ha hd, hready.mergeManyPages_eq]; rfl
    have hstep : SharedHeap.step MapEnv.ok cfg s (.mergeNode q key) =
        some (s.setProc q { st.1 with dirty := Function.update st.1.dirty key false } st.2.1) := by
      rw [step_mergeNode, hmn]; rfl
    refine ⟨_, h.step _ he hstep, by simpa using (Prod.mk.inj (hready.mergeNode2_keeps hmn)).2,
      by simp [st, mergeRef_dirty], fun _ j hj => ?_, fun j hj => ?_,
      fun q' hq' => s.setProc_other _ _ hq'⟩
    · simp only [Node.setProc_self, Node.setProc_shm]
      exact mergeRef_merged hready (hs.pageMapped hq) hj
    · -- a page outside the region is one the walk never visits
      obtain ⟨hrank, hagree⟩ := (mergePageRef_local cfg).foldl (List.range' key size)
        (s.procs q, s.shm, 0) (fun hm => hj (List.mem_range'_1.1 hm))
      simp only [Node.setProc_self, Node.setProc_shm]
      exact ⟨hrank, hagree.init, hagree.zero, hagree.mem, hagree.info, hagree.frame⟩

/-- `MergeNode2` on distinct region bases `keys` in turn: they come out clean, every page of a
region that was dirty is merged, and no page outside the regions moves. -/
theorem Reachable.mergeNode_pass (hr : RanksOK cfg n rank) {q : Nat} (hq : q < n)
    (hmet : metric q = .threshold ∨ metric q = .allocFrequency) :
    ∀ {keys : List Nat} {acts : List Action} {s : Node}, Reachable cfg n rank metric acts s →
      keys.Nodup → (∀ k ∈ keys, ((s.procs q).allocRecord k).isSome) →
      ∃ s', Reachable cfg n rank metric (acts ++ keys.map (.mergeNode q ·)) s' ∧
        (s'.procs q).allocRecord = (s.procs q).allocRecord ∧
        (∀ k, (s'.procs q).dirty k = if k ∈ keys then false else (s.procs q).dirty k) ∧
        (∀ j, (∃ k ∈ keys, ∃ size, (s.procs q).allocRecord k = some size ∧
          (s.procs q).dirty k = true ∧ InRange k size j) → Merged cfg (s'.procs q) s'.shm j) ∧
        (∀ j, (∀ k ∈ keys, ∀ size, (s.procs q).allocRecord k = some size → ¬InRange k size j) →
          (s'.procs q).myRank = (s.procs q).myRank ∧
          PageAgree (s'.procs q, s'.shm, 0) (s.procs q, s.shm, 0) j) ∧
        ∀ q', q' ≠ q → s'.procs q' = s.procs q'
  | [], _, s, h, _, _ =>
    ⟨s, by simpa using h, rfl, fun _ => by simp, fun _ ⟨_, hk, _⟩ => absurd hk (List.not_mem_nil _),
      fun j _ => ⟨rfl, PageAgree.refl _ j⟩, fun _ _ => rfl⟩
  | k :: keys, acts, s, h, hnd, hkeys => by
    obtain ⟨hnk, hnd⟩ := List.nodup_cons.1 hnd
    obtain ⟨size, ha⟩ := Option.isSome_iff_exists.1 (hkeys k (List.mem_cons_self _ _))
    obtain ⟨s₁, h₁, halloc₁, hdirty₁, hmerged₁, hout₁, hother₁⟩ :=
      h.mergeNode_region hr hq (by rw [h.mergeMetric hr]; exact hmet) ha
    obtain ⟨s', h', halloc', hdirty', hmerged', hout', hother'⟩ :=
      Reachable.mergeNode_pass hr hq hmet h₁ hnd fun k' hk' => by
        rw [halloc₁]; exact hkeys k' (List.mem_cons_of_mem _ hk')
    have hdisj := ((h.inv hr).sib q hq).regions.disjoint
    refine ⟨s', by simpa using h', halloc'.trans halloc₁, fun k' => ?_, fun j hj => ?_,
      fun j hj => ?_, fun q' hq' => (hother' q' hq').trans (hother₁ q' hq')⟩
    · rw [hdirty', hdirty₁]
      by_cases hk : k' = k
      · subst hk; simp [hnk]
      · simp [hk, Function.update_noteq hk]
    · obtain ⟨k₀, hk₀, size₀, ha₀, hd₀, hj₀⟩ := hj
      rcases List.mem_cons.1 hk₀ with rfl | hk₀
      · -- the first region: merged by its own call, left alone by the later ones
        have hsize : size₀ = size := Option.some.inj (ha₀.symm.trans ha)
        subst hsize
        obtain ⟨hrank, hagree⟩ := hout' j fun k' hk' size' ha' hj' => hnk <| by
          rw [halloc₁] at ha'; exact hdisj _ _ _ _ j ha' ha₀ hj' hj₀ ▸ hk'
        exact Merged.of_agree hagree hrank (hmerged₁ hd₀ j hj₀)
      · -- a later region: the first call kept its flag and its bounds
        have hne : k₀ ≠ k := fun he => hnk (he ▸ hk₀)
        exact hmerged' j ⟨k₀, hk₀, size₀, by rw [halloc₁]; exact ha₀,
          by rw [hdirty₁, Function.update_noteq hne]; exact hd₀, hj₀⟩
    · obtain ⟨hrank₁, hagree₁⟩ := hout₁ j (hj k (List.mem_cons_self _ _) size ha)
      obtain ⟨hrank', hagree'⟩ := hout' j fun k' hk' size' ha' => by
        rw [halloc₁] at ha'; exact hj k' (List.mem_cons_of_mem _ hk') size' ha'
      exact ⟨hrank'.trans hrank₁, hagree'.trans hagree₁⟩

/-- `MergeNode2` calls on regions that are clean, or not in the index, change nothing. -/
theorem steps_mergeNode_clean (env : MapEnv) {s : Node} {q : Nat} :
    ∀ keys : List Nat, (∀ k ∈ keys, (s.procs q).allocRecord k = none ∨
      (s.procs q).dirty k = false) → steps env cfg s (keys.map (.mergeNode q ·)) = some s
  | [], _ => rfl
  | k :: keys, hk => by
    have hstep : SharedHeap.step env cfg s (.mergeNode q k) = some s := by
      rcases hk k (List.mem_cons_self _ _) with ha | hd
      · simp [step_mergeNode, mergeNode2, ha]
      · cases ha : (s.procs q).allocRecord k <;> simp [step_mergeNode, mergeNode2, ha, hd]
    rw [show steps env cfg s ((k :: keys).map (.mergeNode q ·)) = (SharedHeap.step env cfg s
      (.mergeNode q k)).bind fun s' => steps env cfg s' (keys.map (.mergeNode q ·)) from rfl, hstep,
      Option.some_bind]
    exact steps_mergeNode_clean env keys fun k' hk' => hk k' (List.mem_cons_of_mem _ hk')

/-- A merge traversal of `MergeByALLOC_FREQUENCY` or `MergeByTHRESHOLD` that no other sibling
interrupts: from any reachable state, its `MergeNode2` calls on the region bases in key order are
legal steps. Afterwards every region of the index is clean; every page of a region that was
dirty is merged, that is a zero page, mapped onto the frame it holds, or private with bytes,
not all zero, that differ from a frame another sibling holds; the other siblings have not moved;
and a second traversal right after changes nothing. -/
theorem Reachable.traversal_merges (hr : RanksOK cfg n rank) {acts : List Action} {s : Node}
    (h : Reachable cfg n rank metric acts s) {q : Nat} (hq : q < n)
    (hmet : metric q = .threshold ∨ metric q = .allocFrequency) :
    ∃ s', Reachable cfg n rank metric
        (acts ++ (regionKeys cfg (s.procs q)).map (.mergeNode q ·)) s' ∧
      (∀ key, ((s'.procs q).allocRecord key).isSome → (s'.procs q).dirty key = false) ∧
      (∀ j key size, (s.procs q).allocRecord key = some size → (s.procs q).dirty key = true →
        InRange key size j → Merged cfg (s'.procs q) s'.shm j) ∧
      (∀ q', q' ≠ q → s'.procs q' = s.procs q') ∧
      SharedHeap.steps MapEnv.ok cfg s' ((regionKeys cfg (s'.procs q)).map (.mergeNode q ·)) =
        some s' := by
  have hkeys : ∀ k ∈ regionKeys cfg (s.procs q), ((s.procs q).allocRecord k).isSome :=
    fun k hk => (List.mem_filter.1 hk).2
  obtain ⟨s', h', halloc, hdirty, hmerged, -, hother⟩ := h.mergeNode_pass hr hq hmet
    ((List.nodup_range _).filter _) hkeys
  -- every region base lies in the window, so the traversal visits it
  have hclean : ∀ key, ((s'.procs q).allocRecord key).isSome → (s'.procs q).dirty key = false := by
    intro key hk
    obtain ⟨size, ha⟩ := Option.isSome_iff_exists.1 (halloc ▸ hk)
    have := ((h.inv hr).sib q hq).regions.bounds key size ha
    rw [hdirty, if_pos (List.mem_filter.2 ⟨List.mem_range.2 (by omega), by simp [ha]⟩)]
  refine ⟨s', h', hclean, fun j key size ha hd hj => hmerged j ⟨key, ?_, size, ha, hd, hj⟩, hother,
    steps_mergeNode_clean _ _ fun k _ => ?_⟩
  · have := ((h.inv hr).sib q hq).regions.bounds key size ha
    exact List.mem_filter.2 ⟨List.mem_range.2 (by omega), by simp [ha]⟩
  · cases hk : (s'.procs q).allocRecord k
    · exact .inl rfl
    · exact .inr (hclean k (by simp [hk]))

theorem traversal_merges_storeProgram :
    ∃ s, Reachable Config.page4k 2 id (fun _ => .threshold) storeProgram s ∧ 0 < 2 ∧
      ∃ s', Reachable Config.page4k 2 id (fun _ => .threshold)
          (storeProgram ++ (regionKeys Config.page4k (s.procs 0)).map (.mergeNode 0 ·)) s' ∧
        (∀ key, ((s'.procs 0).allocRecord key).isSome → (s'.procs 0).dirty key = false) ∧
        (∀ j key size, (s.procs 0).allocRecord key = some size → (s.procs 0).dirty key = true →
          InRange key size j → Merged Config.page4k (s'.procs 0) s'.shm j) ∧
        (∀ q', q' ≠ 0 → s'.procs q' = s.procs q') ∧
        steps MapEnv.ok Config.page4k s'
          ((regionKeys Config.page4k (s'.procs 0)).map (.mergeNode 0 ·)) = some s' := by
  obtain ⟨s, h, -⟩ := storeProgram_reachable
  exact ⟨s, h, by decide, Reachable.traversal_merges ranksOK_page4k h (by decide) (.inl rfl)⟩

end Traversal

end SbllMalloc.SharedHeap
