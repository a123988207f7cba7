import SbllMalloc.SharedHeap.Lifecycle

/-!
# `ShmFreeWrapper` over its `int` counter

`ShmFreeWrapper` walks its region with `for (int i = 0; i < size; i += PAGE_SIZE)`: `size` is the
region's length in bytes (an `intptr_t`), `i` a 32-bit `int`, and each round translates the
address `ptr + i` of its page (`TranslateMmapAddr`, which calls `Fatal()` outside the heap window)
before it releases the page. `shmFreeWrapper` walks the region's page indices instead.

The two agree on regions below `2 ^ 31` bytes (`shmFreeWrapperInt_eq`), and there the call frees
exactly its region (`Inv.shmFreeWrapperInt_frame`). The 3 GiB window admits larger regions. From
`2 ^ 31` bytes on, `i += PAGE_SIZE` wraps past `INT_MAX` to `-2 ^ 31`; every value the counter
takes is below `size`, so the loop never exits (`shmFreeWrapperInt_of_two_gib`). Its next round
translates an address below the window, and `Fatal()` runs `CleanUpSharedData()` with the
semaphore held.
-/

namespace SbllMalloc.SharedHeap

/-! ## The `int` counter -/

/-- A value as the 32-bit `int` holds it: arithmetic wraps modulo `2 ^ 32`. -/
def toInt32 (x : Int) : Int := (x + 2 ^ 31) % 2 ^ 32 - 2 ^ 31

theorem toInt32_bounds (x : Int) : -2 ^ 31 ≤ toInt32 x ∧ toInt32 x < 2 ^ 31 := by
  unfold toInt32; omega

theorem toInt32_of_bounds {x : Int} (h₀ : -2 ^ 31 ≤ x) (h : x < 2 ^ 31) : toInt32 x = x := by
  unfold toInt32; omega

/-- `for (int i = i₀; i < size; i += PAGE_SIZE) body(i)`, within `fuel` rounds: `none` when the
loop has not exited within them, or a round does not return. -/
def intLoop {σ : Type} (pageSize size : Nat) (body : σ → Int → Option σ) :
    Nat → Int → σ → Option σ
  | 0, _, _ => none
  | fuel + 1, i, st =>
    if i < size then (body st i).bind (intLoop pageSize size body fuel (toInt32 (i + pageSize)))
    else some st

section IntLoop

variable {σ : Type} {pageSize size : Nat} {body : σ → Int → Option σ}

/-- From `size = 2 ^ 31` on, no value of the counter reaches `size`: the loop does not exit
within any number of rounds. -/
theorem intLoop_of_le (hsize : 2 ^ 31 ≤ size) :
    ∀ (fuel : Nat) (i : Int) (st : σ), -2 ^ 31 ≤ i → i < 2 ^ 31 →
      intLoop pageSize size body fuel i st = none
  | 0, _, _, _, _ => rfl
  | fuel + 1, i, st, _, h => by
    rw [intLoop, if_pos (by omega)]
    cases body st i with
    | none => rfl
    | some st' => exact intLoop_of_le hsize fuel _ st' (toInt32_bounds _).1 (toInt32_bounds _).2

/-- Below `2 ^ 31` the counter does not wrap: with a round to spare, the loop from
`k * PAGE_SIZE` runs its body at the offsets `k' * PAGE_SIZE` for `k ≤ k' < size / PAGE_SIZE`. -/
theorem intLoop_eq_foldlM {count : Nat} (hps : 0 < pageSize) (hsize : size = count * pageSize)
    (hlt : size < 2 ^ 31) :
    ∀ (fuel k : Nat) (st : σ), k ≤ count → count - k < fuel →
      intLoop pageSize size body fuel (k * pageSize : Nat) st =
        (List.range' k (count - k)).foldlM (fun st k => body st (k * pageSize : Nat)) st
  | 0, _, _, _, hf => absurd hf (Nat.not_lt_zero _)
  | fuel + 1, k, st, hk, hf => by
    rw [intLoop]
    rcases Nat.lt_or_ge k count with hk' | hk'
    · have hle : k * pageSize + pageSize ≤ size := by
        rw [← add_one_mul, hsize]; exact Nat.mul_le_mul_right _ hk'
      have hnext : toInt32 ((k * pageSize : Nat) + pageSize) = ((k + 1) * pageSize : Nat) := by
        rw [← Nat.cast_add, toInt32_of_bounds (by omega) (by omega), add_one_mul]
      obtain ⟨m, hm⟩ : ∃ m, count - k = m + 1 := ⟨count - k - 1, by omega⟩
      rw [if_pos (by omega), hm, List.range'_succ, List.foldlM_cons, hnext]
      cases body st (k * pageSize : Nat) with
      | none => rfl
      | some st' =>
        rw [Option.some_bind, intLoop_eq_foldlM hps hsize hlt fuel (k + 1) st' hk' (by omega),
          show count - (k + 1) = m by omega]
        rfl
    · have hkc : k = count := le_antisymm hk hk'
      subst hkc
      rw [if_neg (by rw [hsize]; exact lt_irrefl _), Nat.sub_self]
      rfl

end IntLoop

/-- A loop whose every round returns is the fold of its rounds. -/
theorem foldlM_some {α σ : Type} {f : σ → α → Option σ} {g : σ → α → σ} :
    ∀ (l : List α) (st : σ), (∀ st, ∀ a ∈ l, f st a = some (g st a)) →
      l.foldlM f st = some (l.foldl g st)
  | [], _, _ => rfl
  | a :: l, st, h => by
    rw [List.foldlM_cons, h st a (List.mem_cons_self _ _), Option.bind_eq_bind, Option.some_bind,
      foldlM_some l _ fun st' b hb => h st' b (List.mem_cons_of_mem _ hb), List.foldl_cons]

/-! ## The release loop over the counter -/

/-- One round of the release loop at byte offset `i` from page `ptr`: `TranslateMmapAddr` of the
page's address, then the page's release; outside the heap window, `Fatal()`. -/
def freeRound (cfg : Config) (round : Proc × Shm → Nat → Proc × Shm) (ptr : Nat)
    (st : Proc × Shm) (i : Int) : Option (Proc × Shm) :=
  let j := ((ptr : Int) + i / cfg.pageSize).toNat
  (translateMmapAddr cfg j).map fun _ => round st j

/-- `ShmFreeWrapper(ptr)` with its release loop over the `int` counter, within `fuel` rounds: the
sibling, the file and the return code, or `none` when the call does not return. -/
def shmFreeWrapperInt (cfg : Config) (p : Proc) (shm : Shm) (ptr fuel : Nat) :
    Option (Proc × Shm × Int) :=
  let size := (p.allocRecord ptr).getD 0
  let p := { p with allocRecord := Function.update p.allocRecord ptr none }
  if size = 0 then some (p, shm, -1)
  else
    let p := { p with mem := mapRange p.mem ptr size fun _ => .unmapped }
    let round := if p.mergeMetric ≠ .mergeDisabled then freePage cfg else freePageDisabled
    (intLoop cfg.pageSize (size * cfg.pageSize) (freeRound cfg round ptr) fuel 0 (p, shm)).map
      fun st => (st.1, st.2, 1)

variable {cfg : Config}

theorem freeRound_of_window (round : Proc × Shm → Nat → Proc × Shm) {ptr k : Nat}
    (h₀ : 0 < ptr + k) (h : ptr + k < cfg.heapPages) (st : Proc × Shm) :
    freeRound cfg round ptr st (k * cfg.pageSize : Nat) = some (round st (ptr + k)) := by
  have hj : ((ptr : Int) + ((k * cfg.pageSize : Nat) : Int) / cfg.pageSize).toNat = ptr + k := by
    rw [Nat.cast_mul, Int.mul_ediv_cancel _ (by exact_mod_cast cfg.pageSize_pos.ne'),
      ← Nat.cast_add, Int.toNat_natCast]
  simp only [freeRound, hj, translateMmapAddr, if_pos (And.intro h₀ h), Option.map_some']

/-- On a region inside the window and below `2 ^ 31` bytes, with a round to spare, the loop over
the counter releases the region's pages in order, as `shmFreeWrapper` does. -/
theorem shmFreeWrapperInt_eq {p : Proc} {ptr size : Nat} (hr : p.allocRecord ptr = some size)
    (hwin : 1 ≤ ptr ∧ ptr + size ≤ cfg.heapPages) (hlt : size * cfg.pageSize < 2 ^ 31)
    (shm : Shm) {fuel : Nat} (hfuel : size < fuel) :
    shmFreeWrapperInt cfg p shm ptr fuel = some (shmFreeWrapper cfg p shm ptr) := by
  have hloop : ∀ (round : Proc × Shm → Nat → Proc × Shm) (st : Proc × Shm),
      intLoop cfg.pageSize (size * cfg.pageSize) (freeRound cfg round ptr) fuel 0 st =
        some ((List.range' ptr size).foldl round st) := fun round st => by
    have h := @intLoop_eq_foldlM _ _ _ (freeRound cfg round ptr) size cfg.pageSize_pos rfl hlt
      fuel 0 st (Nat.zero_le _) (by omega)
    rw [Nat.zero_mul, Nat.cast_zero, Nat.sub_zero] at h
    rw [h, foldlM_some (g := fun st k => round st (ptr + k)) _ _ fun st k hk =>
      freeRound_of_window round (by omega) (by rw [List.mem_range'_1] at hk; omega) st,
      ← List.foldl_map, List.map_add_range', Nat.add_zero]
  cases size with
  | zero => simp [shmFreeWrapperInt, shmFreeWrapper, hr]
  | succ k =>
    simp only [shmFreeWrapperInt, shmFreeWrapper, hr, Option.getD_some, Nat.add_one_ne_zero,
      if_false, hloop, Option.map_some']
    split_ifs <;> rfl

/-- A live region of `2 ^ 31` bytes or more: `ShmFreeWrapper` does not return, within any number
of rounds of its loop. -/
theorem shmFreeWrapperInt_of_two_gib {p : Proc} {ptr size : Nat}
    (hr : p.allocRecord ptr = some size) (hbig : 2 ^ 31 ≤ size * cfg.pageSize) (shm : Shm)
    (fuel : Nat) : shmFreeWrapperInt cfg p shm ptr fuel = none := by
  have hpos : size ≠ 0 := by rintro rfl; rw [Nat.zero_mul] at hbig; omega
  simp only [shmFreeWrapperInt, hr, Option.getD_some, if_neg hpos]
  rw [intLoop_of_le hbig fuel 0 _ (by omega) (by omega), Option.map_none']

/-- A region of `2 ^ 31` bytes (`524288` pages of 4 KiB) that `ShmMallocWrapper` records at
page `1`. -/
theorem shmFreeWrapperInt_two_gib_region :
    (shmMallocWrapper Config.page4k ((Node.init 1 id fun _ => .threshold).procs 0) (2 ^ 31)
        1).1.allocRecord 1 = some 524288 ∧ 2 ^ 31 ≤ 524288 * Config.page4k.pageSize ∧
      ∀ fuel, shmFreeWrapperInt Config.page4k (shmMallocWrapper Config.page4k
        ((Node.init 1 id fun _ => .threshold).procs 0) (2 ^ 31) 1).1
        (Node.init 1 id fun _ => .threshold).shm 1 fuel = none :=
  ⟨rfl, by decide, shmFreeWrapperInt_of_two_gib rfl (by decide) _⟩

/-! ## What the call frees -/

/-- On a reachable node, `ShmFreeWrapper(ptr)` on a region below `2 ^ 31` bytes returns, with a
round of its loop per page and one to spare. It drops exactly the key `ptr`, leaves no
initialized, zero or holder bit on the region's pages, and changes no other page's bits or
holder entry. A pointer that is not a region base returns `-1` and changes nothing. -/
theorem Inv.shmFreeWrapperInt_frame {n : Nat} {A : Pass} {s : Node} {q : Nat}
    (hs : Inv cfg n A s) (hq : q < n) (ptr : Nat) {fuel : Nat}
    (hlt : ((s.procs q).allocRecord ptr).getD 0 * cfg.pageSize < 2 ^ 31)
    (hfuel : ((s.procs q).allocRecord ptr).getD 0 < fuel) :
    ∃ p' shm' ret, shmFreeWrapperInt cfg (s.procs q) s.shm ptr fuel = some (p', shm', ret) ∧
      p'.allocRecord = Function.update (s.procs q).allocRecord ptr none ∧
      (∀ j, InRange ptr (((s.procs q).allocRecord ptr).getD 0) j →
        p'.initializedPagesBV j = false ∧ p'.zeroPagesBV j = false ∧
          p'.Held shm'.sharingProcessesInfo j = false) ∧
      (∀ j, ¬InRange ptr (((s.procs q).allocRecord ptr).getD 0) j →
        p'.initializedPagesBV j = (s.procs q).initializedPagesBV j ∧
          p'.zeroPagesBV j = (s.procs q).zeroPagesBV j ∧
          shm'.sharingProcessesInfo j = s.shm.sharingProcessesInfo j) ∧
      (∀ size, (s.procs q).allocRecord ptr = some size → ret = 1) ∧
      ((s.procs q).allocRecord ptr = none → p' = s.procs q ∧ shm' = s.shm ∧ ret = -1) := by
  cases hr : (s.procs q).allocRecord ptr with
  | none =>
    have e : Function.update (s.procs q).allocRecord ptr none = (s.procs q).allocRecord :=
      Function.update_eq_self_iff.2 hr.symm
    refine ⟨s.procs q, s.shm, -1, ?_, e.symm, fun j hj => absurd hj (by simp [InRange]),
      fun _ _ => ⟨rfl, rfl, rfl⟩, fun _ h => absurd h (by simp), fun _ => ⟨rfl, rfl, rfl⟩⟩
    simp only [shmFreeWrapperInt, hr, Option.getD_none, if_true, e]
  | some size =>
    rw [hr, Option.getD_some] at hlt hfuel
    have hR : ∀ j, j ∈ (List.range' ptr size).toFinset ↔ InRange ptr size j := fun j => by
      simp [List.mem_range'_1, InRange]
    obtain ⟨pf, shmf, hres, ⟨halloc, -, -⟩, hm, hdone⟩ := hs.shmFreeWrapper_of_region hq hr
    rw [shmFreeWrapperInt_eq hr ((hs.sib q hq).regions.bounds _ _ hr).2 hlt s.shm hfuel, hres]
    refine ⟨pf, shmf, 1, rfl, halloc, fun j hj => ?_, fun j hj => ?_, fun _ _ => rfl,
      fun h => absurd h (by simp)⟩
    · obtain ⟨h1, h2, h3, -⟩ := hdone j (List.mem_toFinset.1 ((hR j).2 hj))
      exact ⟨h1, h2, h3⟩
    · exact ⟨hm.init j (mt (hR j).1 hj), hm.zero j (mt (hR j).1 hj), hm.info j (mt (hR j).1 hj)⟩

/-- The page of `storeProgram` freed with two rounds of fuel: its initialized bit is cleared and
the call returns `1`. -/
theorem Inv.shmFreeWrapperInt_frame_storeProgram :
    ∃ s, Reachable Config.page4k 2 id (fun _ => .threshold) storeProgram s ∧
      Inv Config.page4k 2 (Pass.run Config.page4k storeProgram) s ∧ 0 < 2 ∧
      ((s.procs 0).allocRecord 1).getD 0 * Config.page4k.pageSize < 2 ^ 31 ∧
      ((s.procs 0).allocRecord 1).getD 0 < 2 ∧
      ∃ p' shm' ret, shmFreeWrapperInt Config.page4k (s.procs 0) s.shm 1 2 = some (p', shm', ret) ∧
        p'.initializedPagesBV 1 = false ∧ ret = 1 := by
  obtain ⟨s, h, hr, -⟩ := storeProgram_reachable
  have hs := h.inv ranksOK_page4k
  have hlt : ((s.procs 0).allocRecord 1).getD 0 * Config.page4k.pageSize < 2 ^ 31 := by
    rw [hr]; decide
  have hfuel : ((s.procs 0).allocRecord 1).getD 0 < 2 := by rw [hr]; decide
  obtain ⟨p', shm', ret, hres, -, hreg, -, hret, -⟩ :=
    Inv.shmFreeWrapperInt_frame hs (by decide) 1 hlt hfuel
  exact ⟨s, h, hs, by decide, hlt, hfuel, p', shm', ret, hres,
    (hreg 1 (show InRange 1 (((s.procs 0).allocRecord 1).getD 0) 1 by rw [hr]; decide)).1,
    hret 1 hr⟩

end SbllMalloc.SharedHeap
