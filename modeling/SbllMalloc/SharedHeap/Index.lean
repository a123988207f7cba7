import SbllMalloc.Avl.Map
import SbllMalloc.SharedHeap.Control
import SbllMalloc.SharedHeap.Reach

/-!
# The allocation index as an AVL tree

The node model keeps a sibling's allocation index as the map `allocRecord`. In the source it is
the AVL tree of `AVL.cpp`, built by the wrappers' calls: `ShmMallocWrapper` calls
`AspaceAvlInsertWrapper(ptr2offset(ptr), size)` once its `mmap` has run, with `size` the rounded
byte count, and `ShmFreeWrapper` calls `AspaceAvlRemoveWrapper(ptr2offset(ptr))`. Faults and
merges write only the nodes' `dirty` flags, which the map leaves out (`Avl.Dirty` shows how
`RemoveAVL` moves them). Keys here are page indices rather than the page-aligned addresses of the
source: the tree only compares keys, and the translation keeps their order.

`Reachable.index_refines` connects the two levels: on every run of the node model, the tree a
sibling's calls build is one of the trees `Avl.Reachable` describes, and it binds each region
base to the region's size in bytes. So `ShmGetSizeWrapper` returns the size of the passthrough
allocator's region (`Reachable.shmGetSizeWrapper_eq`), and `TraverseAVL` visits exactly the region
bases that `regionKeys` lists, in the same order (`Reachable.traverseAVL_keys`), as the controllers
assume.

The flags do not refine: the tree keeps `dirty` in its nodes, and `RemoveAVL` can move a flag to
another region. `FlagReachable` lets a sibling's flags change in any way between actions, and
`FlagReachable.dirty_flags_harmless` shows that the node invariant and the passthrough reads
hold all the same.
-/

namespace SbllMalloc.SharedHeap

open Avl (AVLTreeData)

/-- The index calls of an action on sibling `q`'s tree: `AspaceAvlInsertWrapper` in
`ShmMallocWrapper` when its `mmap` ran, `AspaceAvlRemoveWrapper` in `ShmFreeWrapper`. -/
def indexStep (cfg : Config) (q : Nat) (data : AVLTreeData) : Action → AVLTreeData
  | .malloc q' sz base =>
    if q' = q ∧ mallocPages cfg sz ≠ 0 then
      (Avl.insertAVL data base (mallocPages cfg sz * cfg.pageSize)).1
    else data
  | .free q' ptr => if q' = q then (Avl.removeAVL data ptr).1 else data
  | _ => data

/-- Sibling `q`'s tree after a program, from `CreateAVL(MyComparator)` in `InitAddrSpace`. -/
def indexRun (cfg : Config) (q : Nat) (acts : List Action) : AVLTreeData :=
  acts.foldl (indexStep cfg q) (Avl.createAVL Avl.myComparator)

/-- `ShmGetSizeWrapper(ptr)`: `AspaceAvlSearchWrapper`, the size bound to `ptr`, or `0`. -/
def shmGetSizeWrapper (data : AVLTreeData) (ptr : Nat) : Nat := Avl.findAVL data ptr

/-- The tree is one `Avl.Reachable` describes and binds each base of `regions` to its size in
bytes. -/
def IndexOK (cfg : Config) (regions : Nat → Option Nat) (data : AVLTreeData) : Prop :=
  Avl.Reachable data ∧ ∀ key, data.lookup key = (regions key).map (· * cfg.pageSize)

/-- The keys an action hands the tree are below `2 ^ 63`. -/
def Action.indexKeysSmall : Action → Prop
  | .malloc _ _ base => base < 2 ^ 63
  | .free _ ptr => ptr < 2 ^ 63
  | _ => True

section Index

variable {cfg : Config} {q : Nat} {A : Pass} {data : AVLTreeData}

theorem indexRun_append (cfg : Config) (q : Nat) (acts : List Action) (a : Action) :
    indexRun cfg q (acts ++ [a]) = indexStep cfg q (indexRun cfg q acts) a := by
  simp [indexRun, List.foldl_append]

theorem IndexOK.init (cfg : Config) :
    IndexOK cfg (fun _ => none) (Avl.createAVL Avl.myComparator) :=
  ⟨.create, fun _ => rfl⟩

/-- Binding a fresh base, scaled to bytes. -/
theorem map_update_some (regions : Nat → Option Nat) (base size ps key : Nat) :
    (Function.update regions base (some size) key).map (· * ps) =
      Function.update (fun k => (regions k).map (· * ps)) base (some (size * ps)) key := by
  by_cases h : key = base
  · subst h; simp
  · simp [Function.update_noteq h]

/-- One action keeps the tree standing for the passthrough allocator's regions. -/
theorem IndexOK.step (h : IndexOK cfg (A.regions q) data) (a : Action)
    (hk : a.indexKeysSmall) : IndexOK cfg ((A.step cfg a).regions q) (indexStep cfg q data a) := by
  obtain ⟨hreach, hlk⟩ := h
  have hw := Avl.WF.of_reachable hreach
  cases a with
  | malloc q' sz base =>
    simp only [indexStep, Pass.step]
    by_cases hq : q' = q
    · subst hq
      by_cases hz : mallocPages cfg sz = 0
      · simp only [hz, true_or, if_true, ne_eq, not_true_eq_false, and_false, if_false]
        exact ⟨hreach, hlk⟩
      obtain ⟨-, -, hins⟩ := Avl.insertAVL_spec hw hk (mallocPages cfg sz * cfg.pageSize)
      have hsome : (data.lookup base).isSome = (A.regions q' base).isSome := by
        rw [hlk, Option.isSome_map']
      simp only [hz, ne_eq, not_false_eq_true, and_self, if_true, false_or]
      refine ⟨.insert _ _ hreach hk, fun key => ?_⟩
      rw [hins, hsome]
      by_cases hb : (A.regions q' base).isSome
      · simp only [hb, if_true, hlk]
      · simp only [hb, if_false, Bool.false_eq_true, Function.update_same]
        rw [map_update_some]
        congr 1
        exact funext hlk
    · simp only [hq, false_and, if_false]
      split_ifs
      · exact ⟨hreach, hlk⟩
      · exact ⟨hreach, by simpa [Function.update_noteq (Ne.symm hq)] using hlk⟩
  | free q' ptr =>
    simp only [indexStep, Pass.step]
    by_cases hq : q' = q
    · subst hq
      obtain ⟨-, -, hrem⟩ := Avl.removeAVL_spec hw hk
      rw [if_pos rfl]
      refine ⟨.remove _ hreach hk, fun key => ?_⟩
      rw [hrem, Function.update_same]
      by_cases hkey : key = ptr
      · subst hkey; simp
      · simp [Function.update_noteq hkey, hlk]
    · simpa [hq, Function.update_noteq (Ne.symm hq)] using And.intro hreach hlk
  | store => exact ⟨hreach, hlk⟩
  | fault => exact ⟨hreach, hlk⟩
  | mergeNode => exact ⟨hreach, hlk⟩
  | mergePage => exact ⟨hreach, hlk⟩

end Index

section Runs

variable {cfg : Config} {n : Nat} {rank : Nat → Nat} {metric : Nat → MergeMetric}
  {acts : List Action} {s : Node}

/-- On a run of the node model whose frees name pages below `2 ^ 63`, every sibling's tree stands
for the passthrough allocator's regions. -/
theorem Reachable.indexOK (h : Reachable cfg n rank metric acts s)
    (hfree : ∀ q' ptr, Action.free q' ptr ∈ acts → ptr < 2 ^ 63) (q : Nat) :
    IndexOK cfg ((Pass.run cfg acts).regions q) (indexRun cfg q acts) := by
  induction h with
  | init => exact IndexOK.init cfg
  | @step acts _ _ a _ he _ ih =>
    rw [Pass.run_append, indexRun_append]
    refine (ih fun q' ptr hm => hfree q' ptr (List.mem_append_left _ hm)).step a ?_
    cases a with
    | malloc q' sz base =>
      have : cfg.heapPages < 2 ^ 63 := (Nat.div_le_self _ _).trans_lt (by norm_num)
      have := he.2.2.1
      show base < 2 ^ 63
      omega
    | free q' ptr => exact hfree q' ptr (List.mem_append_right _ (List.mem_singleton_self _))
    | _ => trivial

/-- The same against the sibling's own allocation index. -/
theorem Reachable.indexOK_procs (hr : RanksOK cfg n rank) (h : Reachable cfg n rank metric acts s)
    (hfree : ∀ q' ptr, Action.free q' ptr ∈ acts → ptr < 2 ^ 63) {q : Nat} (hq : q < n) :
    IndexOK cfg (s.procs q).allocRecord (indexRun cfg q acts) := by
  rw [((h.inv hr).refines q hq).regions]
  exact h.indexOK hfree q

/-- The allocation index of the node model is what the AVL tree built by the sibling's own
`AspaceAvlInsertWrapper` and `AspaceAvlRemoveWrapper` calls stands for: at every reachable state
the tree is one that `CreateAVL(MyComparator)` reaches with keys below `2 ^ 63` and it binds
every region base to the region's size in bytes. -/
theorem Reachable.index_refines (hr : RanksOK cfg n rank) (h : Reachable cfg n rank metric acts s)
    (hfree : ∀ q' ptr, Action.free q' ptr ∈ acts → ptr < 2 ^ 63) {q : Nat} (hq : q < n) :
    Avl.Reachable (indexRun cfg q acts) ∧
      ∀ key, (indexRun cfg q acts).lookup key =
        ((s.procs q).allocRecord key).map (· * cfg.pageSize) :=
  h.indexOK_procs hr hfree hq

/-- Sibling `0` of `storeProgram` then allocates two pages at page `2` and frees its first region,
whose node `RemoveAVL` deletes from its tree. -/
def reindexProgram : List Action := storeProgram ++ [.malloc 0 8192 2, .free 0 1]

theorem reindexProgram_reachable :
    ∃ s, Reachable Config.page4k 2 id (fun _ => .threshold) reindexProgram s := by
  obtain ⟨s, h, -, -, hun⟩ := storeProgram_reachable
  have he : Enabled Config.page4k 2 s (.malloc 0 8192 2) := ⟨by decide, by decide, by decide,
    fun j hj => by
      rw [show mallocPages Config.page4k 8192 = 2 by decide] at hj
      exact hun j (by unfold InRange at hj; omega)⟩
  obtain ⟨s₁, hs₁⟩ := Option.isSome_iff_exists.1 ((h.inv ranksOK_page4k).step_isSome he)
  have h₁ := h.step _ he hs₁
  obtain ⟨s₂, hs₂⟩ := Option.isSome_iff_exists.1
    ((h₁.inv ranksOK_page4k).step_isSome (a := .free 0 1) Nat.zero_lt_two)
  exact ⟨s₂, h₁.step _ Nat.zero_lt_two hs₂⟩

theorem reindexProgram_frees_small :
    ∀ q' ptr, Action.free q' ptr ∈ reindexProgram → ptr < 2 ^ 63 := by
  simp [reindexProgram, storeProgram]

/-- After the free, the tree tells the node's allocation index: the region at page `1` is gone and
the one at page `2` has two pages. -/
theorem index_refines_reindexProgram :
    ∃ s, Reachable Config.page4k 2 id (fun _ => .threshold) reindexProgram s ∧
      (s.procs 0).allocRecord 1 = none ∧ (s.procs 0).allocRecord 2 = some 2 := by
  obtain ⟨s, h⟩ := reindexProgram_reachable
  have hidx := (Reachable.index_refines ranksOK_page4k h reindexProgram_frees_small (q := 0)
    (by decide)).2
  have h₁ : (indexRun Config.page4k 0 reindexProgram).lookup 1 = none := by decide
  have h₂ : (indexRun Config.page4k 0 reindexProgram).lookup 2 = some 8192 := by decide
  rw [hidx] at h₁ h₂
  obtain ⟨k, hk, hk₂⟩ := Option.map_eq_some'.1 h₂
  exact ⟨s, h, Option.map_eq_none'.1 h₁, by rw [hk]; congr 1; simp [Config.page4k] at hk₂; omega⟩

/-- `ShmGetSizeWrapper(ptr)` returns the size in bytes of the passthrough allocator's region at
`ptr`, and `0` when no region starts there. -/
theorem Reachable.shmGetSizeWrapper_eq (h : Reachable cfg n rank metric acts s)
    (hfree : ∀ q' ptr, Action.free q' ptr ∈ acts → ptr < 2 ^ 63) (q : Nat) {ptr : Nat}
    (hptr : ptr < 2 ^ 63) :
    shmGetSizeWrapper (indexRun cfg q acts) ptr =
      ((Pass.run cfg acts).regions q ptr).getD 0 * cfg.pageSize := by
  obtain ⟨hreach, hlk⟩ := h.indexOK hfree q
  rw [shmGetSizeWrapper, Avl.findAVL_spec (Avl.WF.of_reachable hreach) hptr, hlk]
  cases (Pass.run cfg acts).regions q ptr <;> simp

theorem shmGetSizeWrapper_eq_reindexProgram :
    ∃ s, Reachable Config.page4k 2 id (fun _ => .threshold) reindexProgram s ∧
      shmGetSizeWrapper (indexRun Config.page4k 0 reindexProgram) 1 = 0 ∧
      shmGetSizeWrapper (indexRun Config.page4k 0 reindexProgram) 2 = 8192 := by
  obtain ⟨s, h⟩ := reindexProgram_reachable
  exact ⟨s, h, (Reachable.shmGetSizeWrapper_eq h reindexProgram_frees_small 0 (by decide)).trans
    (by decide), (Reachable.shmGetSizeWrapper_eq h reindexProgram_frees_small 0 (by decide)).trans
    (by decide)⟩

/-- `TraverseAVL` on a sibling's tree visits exactly the region bases of its allocation index, in
increasing order: the list `regionKeys` that the controllers' traversals walk. -/
theorem Reachable.traverseAVL_keys (hr : RanksOK cfg n rank)
    (h : Reachable cfg n rank metric acts s)
    (hfree : ∀ q' ptr, Action.free q' ptr ∈ acts → ptr < 2 ^ 63) {q : Nat} (hq : q < n)
    (visit : Nat → Nat → Bool → Bool) :
    (Avl.traverseAVL (indexRun cfg q acts) visit).2.map Prod.fst = regionKeys cfg (s.procs q) := by
  obtain ⟨hreach, hlk⟩ := h.indexOK_procs hr hfree hq
  obtain ⟨-, -, hsorted, hmem, -⟩ := Avl.traverseAVL_spec (Avl.WF.of_reachable hreach) visit
  have hbounds := ((h.inv hr).sib q hq).regions.bounds
  have hs₁ : (Avl.traverseAVL (indexRun cfg q acts) visit).2.map Prod.fst |>.Sorted (· < ·) :=
    List.pairwise_map.2 hsorted
  have hs₂ : (regionKeys cfg (s.procs q)).Sorted (· < ·) :=
    (List.pairwise_lt_range _).filter _
  refine List.eq_of_perm_of_sorted ((List.perm_ext_iff_of_nodup hs₁.nodup hs₂.nodup).2
    fun key => ?_) hs₁ hs₂
  simp only [List.mem_map, regionKeys, List.mem_filter, List.mem_range]
  constructor
  · rintro ⟨⟨k, v, d⟩, hm, rfl⟩
    have hv := (hmem k v).1 ⟨d, hm⟩
    rw [hlk] at hv
    obtain ⟨size, hsize, -⟩ := Option.map_eq_some'.1 hv
    exact ⟨by have := hbounds k size hsize; omega, by simp [hsize]⟩
  · rintro ⟨-, hsome⟩
    obtain ⟨size, hsize⟩ := Option.isSome_iff_exists.1 hsome
    obtain ⟨d, hm⟩ := (hmem key (size * cfg.pageSize)).2 (by rw [hlk, hsize]; rfl)
    exact ⟨(key, _, d), hm, rfl⟩

/-- After the free, the traversal visits page `2` only, so that is the node's only region base. -/
theorem traverseAVL_keys_reindexProgram :
    ∃ s, Reachable Config.page4k 2 id (fun _ => .threshold) reindexProgram s ∧
      regionKeys Config.page4k (s.procs 0) = [2] := by
  obtain ⟨s, h⟩ := reindexProgram_reachable
  refine ⟨s, h, ?_⟩
  rw [← Reachable.traverseAVL_keys ranksOK_page4k h reindexProgram_frees_small (q := 0)
    (by decide) fun _ _ d => d]
  decide

/-! ## The tree's `dirty` flags -/

/-- The node model with the `dirty` flags the tree hands `MergeNode2`: between actions, a
sibling's flags may change in any way. `TraverseAVL` passes each node's own flag, and `RemoveAVL`
can leave a removed region's flag on the node that takes its neighbour's key
(`Avl.removeAVL_records`), so the flag `MergeNode2` reads for a region need not be the one the
region's faults set. -/
inductive FlagReachable (cfg : Config) (n : Nat) (rank : Nat → Nat)
    (metric : Nat → MergeMetric) : List Action → Node → Prop
  | init : FlagReachable cfg n rank metric [] (Node.init n rank metric)
  | step {acts : List Action} {s s' : Node} (a : Action) :
      FlagReachable cfg n rank metric acts s → Enabled cfg n s a →
      step MapEnv.ok cfg s a = some s' →
      FlagReachable cfg n rank metric (acts ++ [a]) s'
  | setDirty {acts : List Action} {s : Node} (q : Nat) (d : Nat → Bool) :
      FlagReachable cfg n rank metric acts s → q < n →
      FlagReachable cfg n rank metric acts (s.setProc q { s.procs q with dirty := d } s.shm)

theorem Reachable.flagReachable (h : Reachable cfg n rank metric acts s) :
    FlagReachable cfg n rank metric acts s := by
  induction h with
  | init => exact .init
  | step a _ he hstep ih => exact ih.step a he hstep

/-- Whatever flags the tree reports, every invariant of the node model holds (holder bits agree
with the mappings, the statistics count the pages, regions are the passthrough allocator's) and
every byte of every live page reads what the passthrough allocator holds: a moved flag only
changes which regions `MergeNode2` merges. -/
theorem FlagReachable.dirty_flags_harmless (hr : RanksOK cfg n rank)
    (h : FlagReachable cfg n rank metric acts s) :
    Inv cfg n (Pass.run cfg acts) s ∧
      ∀ q < n, ∀ i o, (s.procs q).Live i → o < cfg.pageSize →
        s.readByte q i o = some ((Pass.run cfg acts).bytes q i o) := by
  have hI : Inv cfg n (Pass.run cfg acts) s := by
    induction h with
    | init => exact Inv.init metric hr
    | step a _ he hstep ih => rw [Pass.run_append]; exact ih.next he hstep
    | setDirty q d _ hq ih => exact ih.setDirty hq d
  exact ⟨hI, fun q hq _ _ hl ho => (hI.refines q hq).readByte hl ho⟩

theorem dirty_flags_harmless_storeProgram :
    ∃ s, FlagReachable Config.page4k 2 id (fun _ => .threshold) storeProgram s ∧
      (s.procs 0).dirty 1 = false ∧ s.readByte 0 1 0 = some 7 := by
  obtain ⟨s, h, -⟩ := storeProgram_reachable
  have h' := h.flagReachable.setDirty 0 (fun _ => false) (by decide)
  refine ⟨_, h', by simp, ?_⟩
  have hl : ((s.setProc 0 { s.procs 0 with dirty := fun _ => false } s.shm).procs 0).Live 1 := by
    rw [Node.setProc_self]; exact storeProgram_live h
  exact ((FlagReachable.dirty_flags_harmless ranksOK_page4k h').2 0 (by decide) 1 0 hl
    (by decide)).trans rfl

end Runs

end SbllMalloc.SharedHeap
