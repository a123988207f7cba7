import SbllMalloc.SharedHeap.FreeLoop

/-!
# `ShmReallocWrapper`

`ShmReallocWrapper(ptr, size)` looks up the region's length `old_size` in the allocation index.
It returns `NULL` for a pointer that is not a region base, and `ptr` when `old_size >= size`.
Otherwise it allocates a region with `ShmMallocWrapper(size)`, copies
`int32_t sz = min(old_size, size)` bytes into it with `memcpy(new_ptr, ptr, sz)`, frees the old
region and returns the new one. `ShmMallocWrapper` places the new region at page `base`, and
rounds a request over `2 ^ 64 - PAGE_SIZE` bytes to zero pages and returns `NULL`. `ptmalloc`
cannot serve such a request either, and the wrapper then returns `ptr`.

`memcpy` is modelled page by page, which is exact here: `old_size` is a whole number of pages,
and so is every length `sz` takes. A write to a read-only page takes the write fault first, and a
read or a write of an unmapped page crashes. The write fault is `SigSegvHandler`'s critical section
(`sigSegvHandler`), which is the whole handler under `MERGE_DISABLED` and `ALLOC_FREQUENCY`. Under
`THRESHOLD` and `BUFFERED` the handler also calls its merge controller, which may share pages of
the new region again while they are copied; those calls are not part of this model, and what is
proved here of the copy is for the first two policies. Under `ALLOC_FREQUENCY` the traversal that
`ShmMallocWrapper` may run before its `mmap` is a run of `MergeNode2` calls, which leaves a
reachable node, and the copy starts from that node.

`sz` is an `int32_t`. The 3 GiB window admits an `old_size` of `2 ^ 31` bytes or more. That
converts to a negative `sz`, which `memcpy` takes as a `size_t` of `2 ^ 64 - 2 ^ 32 + old_size`
bytes. The copy runs past the new region and every mapping, and crashes
(`Inv.shmReallocWrapper_crashes`).
-/

namespace SbllMalloc.SharedHeap

/-! ## `memcpy` -/

/-- The bytes `c` written over page `i`: a writable anonymous page takes them, a writable page of
the file writes them into its frame, and anything else crashes. -/
def writePage (p : Proc) (shm : Shm) (i : Nat) (c : Page) : Option (Proc × Shm) :=
  match p.mem i with
  | .anon _ true => some ({ p with mem := Function.update p.mem i (.anon c true) }, shm)
  | .file f true => some (p, { shm with frames := Function.update shm.frames f c })
  | _ => none

/-- Page `k` of `memcpy(dst, src, ·)`: read page `src + k`, take the write fault on page `dst + k`
if it is read-only, as `SigSegvHandler` takes it when it runs no merge controller
(`MERGE_DISABLED`, `ALLOC_FREQUENCY`), and write the bytes. -/
def copyPage (cfg : Config) (dst src : Nat) (st : Proc × Shm) (k : Nat) : Option (Proc × Shm) := do
  let c ← (st.1.mem (src + k)).content st.2.frames
  let st ← if (st.1.mem (dst + k)).faultsOnWrite then sigSegvHandler cfg st.1 st.2 (dst + k)
    else some st
  writePage st.1 st.2 (dst + k) c

/-- `memcpy(dst, src, count * PAGE_SIZE)` for the pages `dst` and `src`. -/
def memcpyPages (cfg : Config) (dst src : Nat) (st : Proc × Shm) (count : Nat) :
    Option (Proc × Shm) :=
  (List.range count).foldlM (copyPage cfg dst src) st

/-- `ShmReallocWrapper(ptr, size)` with `ShmMallocWrapper` placing a new region at page `base`:
the sibling, the file and the returned pointer (`none` for `NULL`), or `none` when the call
crashes. -/
def shmReallocWrapper (cfg : Config) (p : Proc) (shm : Shm) (ptr size base : Nat) :
    Option (Proc × Shm × Option Nat) :=
  let oldSize := (p.allocRecord ptr).getD 0 * cfg.pageSize
  if oldSize = 0 then some (p, shm, none)
  else if size ≤ oldSize then some (p, shm, some ptr)
  else
    match shmMallocWrapper cfg p size base with
    | (_, none) => some (p, shm, some ptr)
    | (p', some newPtr) =>
      let sz := toInt32 (min oldSize size : Nat)
      (memcpyPages cfg newPtr ptr (p', shm) ((sz % 2 ^ 64).toNat / cfg.pageSize)).map fun st =>
        let r := shmFreeWrapper cfg st.1 st.2 ptr
        (r.1, r.2.1, some newPtr)

variable {cfg : Config}

/-! ## Frames of the copy -/

theorem writePage_frame {p p' : Proc} {shm shm' : Shm} {i : Nat} {c : Page}
    (h : writePage p shm i c = some (p', shm')) :
    (∀ j, j ≠ i → p'.mem j = p.mem j) ∧ p'.allocRecord = p.allocRecord := by
  unfold writePage at h
  split at h
  · obtain ⟨rfl, rfl⟩ := Prod.mk.inj (Option.some.inj h)
    exact ⟨fun j hj => Function.update_noteq hj _ _, rfl⟩
  · obtain ⟨rfl, rfl⟩ := Prod.mk.inj (Option.some.inj h)
    exact ⟨fun _ _ => rfl, rfl⟩
  · cases h

/-- A page of the copy changes the mapping of its destination page only. -/
theorem copyPage_mem {dst src k : Nat} {st st' : Proc × Shm}
    (h : copyPage cfg dst src st k = some st') (j : Nat) (hj : j ≠ dst + k) :
    st'.1.mem j = st.1.mem j := by
  simp only [copyPage, Option.bind_eq_bind] at h
  obtain ⟨c, -, h⟩ := Option.bind_eq_some.1 h
  split_ifs at h
  · obtain ⟨st₁, h₁, h₂⟩ := Option.bind_eq_some.1 h
    rw [(writePage_frame h₂).1 j hj, (sigSegvHandler_frame h₁).1 j hj]
  · exact (writePage_frame h).1 j hj

/-- The copy crashes at a destination page that nobody maps. -/
theorem copyPage_of_unmapped {dst src k : Nat} {st : Proc × Shm}
    (h : st.1.mem (dst + k) = .unmapped) : copyPage cfg dst src st k = none := by
  simp only [copyPage, h, Mapping.faultsOnWrite, Bool.false_eq_true, if_false,
    Option.bind_eq_bind, Option.some_bind, writePage]
  cases (st.1.mem (src + k)).content st.2.frames <;> rfl

/-- A loop whose rounds keep `P`, and whose round at `a` fails from any state with `P`, fails
once it reaches `a`. -/
theorem foldlM_none_of_mem {α σ : Type} {f : σ → α → Option σ} (P : σ → Prop) {a : α}
    (hkeep : ∀ st b st', P st → b ≠ a → f st b = some st' → P st')
    (hfail : ∀ st, P st → f st a = none) :
    ∀ (l : List α) (st : σ), a ∈ l → P st → l.foldlM f st = none
  | [], _, h, _ => absurd h (List.not_mem_nil _)
  | b :: l, st, h, hP => by
    rw [List.foldlM_cons]
    by_cases hb : b = a
    · subst hb; rw [hfail st hP]; rfl
    · cases hf : f st b with
      | none => rfl
      | some st' =>
        exact foldlM_none_of_mem P hkeep hfail l st' ((List.mem_cons.1 h).resolve_left (Ne.symm hb))
          (hkeep st b st' hP hb hf)

/-- A copy over a destination page that nobody maps crashes. -/
theorem memcpyPages_of_unmapped {dst src count k₀ : Nat} (hk : k₀ < count) {st : Proc × Shm}
    (h : st.1.mem (dst + k₀) = .unmapped) : memcpyPages cfg dst src st count = none :=
  foldlM_none_of_mem (f := copyPage cfg dst src)
    (fun st : Proc × Shm => st.1.mem (dst + k₀) = .unmapped)
    (fun _ _ _ hP hb hf => (copyPage_mem hf _ (by omega)).trans hP)
    (fun _ hP => copyPage_of_unmapped hP) _ st (List.mem_range.2 hk) h

/-! ## Copying onto fresh pages -/

/-- Page `k` copied onto an untouched page: the destination takes its first write fault, which
counts it, and then the bytes of the source page. -/
theorem copyPage_fresh {dst src k : Nat} {p : Proc} {shm : Shm} {c : Page}
    (hc : (p.mem (src + k)).content shm.frames = some c)
    (hd : p.mem (dst + k) = .anon blankPage false) (hi : p.initializedPagesBV (dst + k) = false) :
    copyPage cfg dst src (p, shm) k =
      some ({ p with dirty := markDirty p (dst + k),
                     initializedPagesBV := Function.update p.initializedPagesBV (dst + k) true,
                     mem := Function.update p.mem (dst + k) (.anon c true) },
        { shm with allProcPrivatePageCount := shm.allProcPrivatePageCount + 1,
                   baseCaseTotalPageCount := shm.baseCaseTotalPageCount + 1 }) := by
  simp only [copyPage, hc, hd, Mapping.faultsOnWrite, Bool.not_false, if_true,
    Option.bind_eq_bind, Option.some_bind, sigSegvHandler_first _ _ _ hi, writePage,
    Function.update_same, Mapping.protect_anon, Function.update_idem]

/-- The copy after its first `k` pages, from the sibling `p₀` and the file `shm₀` through the
sibling `p₁` that `ShmMallocWrapper` left: frames and regions as they were, every page outside
`[base, base + k)` as in `p₁`, and page `base + k'` holding the bytes of page `ptr + k'`. -/
structure CopyInv (p₀ p₁ : Proc) (shm₀ : Shm) (ptr base k : Nat) (st : Proc × Shm) : Prop where
  frames : st.2.frames = shm₀.frames
  alloc : st.1.allocRecord = p₁.allocRecord
  rest : ∀ j, ¬InRange base k j →
    st.1.mem j = p₁.mem j ∧ st.1.initializedPagesBV j = p₁.initializedPagesBV j
  copied : ∀ k' < k, ∀ c, (p₀.mem (ptr + k')).content shm₀.frames = some c →
    st.1.mem (base + k') = .anon c true

/-- One page of the copy onto an untouched page of the new region, from a source page outside
it. -/
theorem CopyInv.step {p₀ p₁ : Proc} {shm₀ : Shm} {ptr base k : Nat} {st : Proc × Shm}
    (h : CopyInv p₀ p₁ shm₀ ptr base k st) (hsrc : ¬InRange base k (ptr + k))
    (hsrc₁ : p₁.mem (ptr + k) = p₀.mem (ptr + k)) {c : Page}
    (hc : (p₀.mem (ptr + k)).content shm₀.frames = some c)
    (hd : p₁.mem (base + k) = .anon blankPage false)
    (hi : p₁.initializedPagesBV (base + k) = false) :
    ∃ st', copyPage cfg base ptr st k = some st' ∧ CopyInv p₀ p₁ shm₀ ptr base (k + 1) st' := by
  obtain ⟨p, shm⟩ := st
  obtain ⟨hd', hi'⟩ := h.rest (base + k) (by unfold InRange; omega)
  have hc' : (p.mem (ptr + k)).content shm.frames = some c := by
    rw [(h.rest _ hsrc).1, hsrc₁, h.frames]; exact hc
  refine ⟨_, copyPage_fresh hc' (hd'.trans hd) (hi'.trans hi), h.frames, h.alloc,
    fun j hj => ?_, fun k' hk' c' hc'' => ?_⟩
  · have hne : j ≠ base + k := by rintro rfl; exact hj (by unfold InRange; omega)
    simp only [Function.update_noteq hne]
    exact h.rest j fun hin => hj (by unfold InRange at hin ⊢; omega)
  · dsimp only
    rcases Nat.lt_succ_iff_lt_or_eq.1 hk' with hk' | rfl
    · rw [Function.update_noteq (by omega)]; exact h.copied k' hk' c' hc''
    · rw [hc, Option.some.injEq] at hc''
      rw [Function.update_same, hc'']

/-- From `2 ^ 31` to `2 ^ 32` bytes, the negative `int32_t` reaches `memcpy` as a `size_t` just
short of `2 ^ 64`. -/
theorem copyLength_of_le {oldSize : Nat} (h : 2 ^ 31 ≤ oldSize) (h' : oldSize < 2 ^ 32) :
    (toInt32 oldSize % 2 ^ 64).toNat = 2 ^ 64 - 2 ^ 32 + oldSize := by
  unfold toInt32; omega

/-- The copy branch: `old_size` is below `size`, and `ShmMallocWrapper` places a region. -/
theorem shmReallocWrapper_copy {p : Proc} {shm : Shm} {ptr size base oldPages : Nat}
    (hr : p.allocRecord ptr = some oldPages) (hpos : 0 < oldPages)
    (hsize : oldPages * cfg.pageSize < size) (hnew : mallocPages cfg size ≠ 0) :
    shmReallocWrapper cfg p shm ptr size base =
      (memcpyPages cfg base ptr ((shmMallocWrapper cfg p size base).1, shm)
        ((toInt32 (oldPages * cfg.pageSize : Nat) % 2 ^ 64).toNat / cfg.pageSize)).map fun st =>
          ((shmFreeWrapper cfg st.1 st.2 ptr).1, (shmFreeWrapper cfg st.1 st.2 ptr).2.1,
            some base) := by
  have h0 : oldPages * cfg.pageSize ≠ 0 := (Nat.mul_pos hpos cfg.pageSize_pos).ne'
  simp only [shmReallocWrapper, hr, Option.getD_some, if_neg h0, if_neg (Nat.not_le.2 hsize),
    shmMallocWrapper, if_neg hnew, min_eq_left hsize.le]

/-! ## Regions of `2 ^ 31` bytes or more -/

variable {n : Nat} {A : Pass} {s : Node} {q : Nat}

/-- On a reachable node, `ShmReallocWrapper` of a live region of `2 ^ 31` bytes or more to any
larger size that `ShmMallocWrapper` can map, on free pages of the 64-bit address space, crashes:
`memcpy` is handed `2 ^ 64 - 2 ^ 32 + old_size` bytes and reaches a page nobody maps. -/
theorem Inv.shmReallocWrapper_crashes (hs : Inv cfg n A s) (hq : q < n)
    {ptr oldPages size base : Nat} (hr : (s.procs q).allocRecord ptr = some oldPages)
    (hbig : 2 ^ 31 ≤ oldPages * cfg.pageSize) (hsize : oldPages * cfg.pageSize < size)
    (hsz : size ≤ 2 ^ 64 - cfg.pageSize) (hbase : 1 ≤ base)
    (hspace : (base + mallocPages cfg size) * cfg.pageSize ≤ 2 ^ 64)
    (hfree : ∀ j, InRange base (mallocPages cfg size) j → (s.procs q).mem j = .unmapped) :
    shmReallocWrapper cfg (s.procs q) s.shm ptr size base = none := by
  have hps := cfg.pageSize_pos
  obtain ⟨hpos, hptr, hend⟩ := (hs.sib q hq).regions.bounds _ _ hr
  have hH : cfg.heapPages * cfg.pageSize ≤ 0xc0000000 := Nat.div_mul_le_self _ _
  have hold : oldPages * cfg.pageSize ≤ cfg.heapPages * cfg.pageSize :=
    Nat.mul_le_mul_right _ (by omega)
  set newPages := mallocPages cfg size with hnp
  have hnew : newPages ≠ 0 := by
    rw [hnp, mallocPages, Nat.mod_eq_of_lt (by omega)]
    exact (Nat.div_pos (by omega) hps).ne'
  -- the old region lies wholly below or wholly above the new one
  have hdis : base + newPages ≤ ptr ∨ ptr + oldPages ≤ base := by
    by_contra hc
    push_neg at hc
    have hl : (s.procs q).Live (max base ptr) := ⟨ptr, oldPages, hr, by unfold InRange; omega⟩
    exact (hs.liveState hq hl).ne_unmapped (hfree _ (by unfold InRange; omega))
  -- a page at or past the top of the window, outside the new region, is unmapped
  have hout : ∀ j, cfg.heapPages ≤ j → ¬InRange base newPages j →
      ((shmMallocWrapper cfg (s.procs q) size base).1, s.shm).1.mem j = .unmapped := by
    intro j hj hjn
    have hnl : ¬(s.procs q).Live j := fun ⟨b, sz, hb, hin⟩ => by
      have := ((hs.sib q hq).regions.bounds _ _ hb).2.2; unfold InRange at hin; omega
    simp only [shmMallocWrapper_mem hnew, mapRange_of_not_inRange _ hjn]
    exact (((hs.sib q hq).pages j).2 hnl).2.2.2
  -- the copy stops at the first page past the new region and the window
  set k₀ := if cfg.heapPages ≤ base + newPages then newPages else cfg.heapPages - base with hk₀
  have hk : k₀ < (2 ^ 64 - 2 ^ 32 + oldPages * cfg.pageSize) / cfg.pageSize := by
    rw [Nat.lt_iff_add_one_le, Nat.le_div_iff_mul_le hps, hk₀]
    split_ifs with h
    · rcases hdis with hd | hd
      · -- the new region lies below the old one, inside the window
        have := Nat.mul_le_mul_right cfg.pageSize (show newPages + 1 ≤ cfg.heapPages by omega)
        omega
      · -- above it: the address space leaves it less than `2 ^ 64 - old_size` bytes
        obtain ⟨b, rfl⟩ : ∃ b, base = b + 1 := ⟨base - 1, by omega⟩
        have e : (b + 1 + newPages) * cfg.pageSize =
            (newPages + 1) * cfg.pageSize + b * cfg.pageSize := by ring
        have := Nat.mul_le_mul_right cfg.pageSize (show oldPages ≤ b by omega)
        omega
    · have := Nat.mul_le_mul_right cfg.pageSize
        (show cfg.heapPages - base + 1 ≤ cfg.heapPages by omega)
      omega
  have hun : ((shmMallocWrapper cfg (s.procs q) size base).1, s.shm).1.mem (base + k₀) =
      .unmapped := by
    rw [hk₀]
    split_ifs with h
    · exact hout _ h (by unfold InRange; omega)
    · rw [show base + (cfg.heapPages - base) = cfg.heapPages by omega]
      exact hout _ le_rfl (by unfold InRange; omega)
  rw [shmReallocWrapper_copy hr hpos hsize hnew, copyLength_of_le hbig (by omega),
    memcpyPages_of_unmapped hk hun, Option.map_none']

/-- A region of `2 ^ 31` bytes at page `1`, grown by one page onto the pages right after it. -/
theorem Inv.shmReallocWrapper_crashes_two_gib :
    ∃ s, Reachable Config.page4k 2 id (fun _ => .threshold) [.malloc 0 (2 ^ 31) 1] s ∧
      Inv Config.page4k 2 (Pass.run Config.page4k [.malloc 0 (2 ^ 31) 1]) s ∧ 0 < 2 ∧
      (s.procs 0).allocRecord 1 = some 524288 ∧ 2 ^ 31 ≤ 524288 * Config.page4k.pageSize ∧
      524288 * Config.page4k.pageSize < 2 ^ 31 + 4096 ∧
      2 ^ 31 + 4096 ≤ 2 ^ 64 - Config.page4k.pageSize ∧ 1 ≤ 524289 ∧
      (524289 + mallocPages Config.page4k (2 ^ 31 + 4096)) * Config.page4k.pageSize ≤ 2 ^ 64 ∧
      (∀ j, InRange 524289 (mallocPages Config.page4k (2 ^ 31 + 4096)) j →
        (s.procs 0).mem j = .unmapped) ∧
      shmReallocWrapper Config.page4k (s.procs 0) s.shm 1 (2 ^ 31 + 4096) 524289 = none := by
  obtain ⟨s, h, hr, hfree⟩ : ∃ s, Reachable Config.page4k 2 id (fun _ => .threshold)
      [.malloc 0 (2 ^ 31) 1] s ∧ (s.procs 0).allocRecord 1 = some 524288 ∧
      ∀ j, InRange 524289 (mallocPages Config.page4k (2 ^ 31 + 4096)) j →
        (s.procs 0).mem j = .unmapped := by
    have h₀ : Reachable Config.page4k 2 id (fun _ => .threshold) [] _ := .init
    refine ⟨_, h₀.step (.malloc 0 (2 ^ 31) 1) ⟨by decide, le_rfl, by decide, fun _ _ => rfl⟩ rfl,
      rfl, fun j hj => if_neg fun hin => ?_⟩
    rw [show mallocPages Config.page4k (2 ^ 31 + 4096) = 524289 by decide] at hj
    rw [show mallocPages Config.page4k (2 ^ 31) = 524288 by decide] at hin
    unfold InRange at hj hin; omega
  have hs := h.inv ranksOK_page4k
  exact ⟨s, h, hs, by decide, hr, by decide, by decide, by decide, by decide, by decide, hfree,
    Inv.shmReallocWrapper_crashes hs (by decide) hr (by decide) (by decide) (by decide) (by decide)
      (by decide) hfree⟩

/-! ## Regions below `2 ^ 31` bytes -/

end SbllMalloc.SharedHeap
