import SbllMalloc.Avl.Map

/-!
# `FindRangeAVL`

The allocation index stores each region as `[key, key + value)`. `FindRangeAVL(a)` walks one
search path: it goes left of a key above `a`, returns the node of a key below `a` when `a` falls
before the end of that node's region (the sum taken in 64 bits), and goes right otherwise. It
never looks into the left subtree of a node it passes on the right. That is complete because the
regions are disjoint: in key order each region ends at or before the next one begins
(`Separated`), so every region left of a key `k ≤ a` ends at or before `k`.

The walk follows the order of the numbers only where `MyComparator` does, that is for keys and
addresses below `2 ^ 63` (`myComparator_lawful`). An address above `2 ^ 63` is more than
`2 ^ 63` above a small key, and the signed difference sends the walk left of that key.
-/

namespace SbllMalloc.Avl

open AVLTreeNode

namespace AVLTreeNode

/-- The key and value a node holds; `none` for `NULL`. -/
def binding : AVLTreeNode → Option (Nat × Nat)
  | nil => none
  | node k v _ _ _ _ => some (k, v)

theorem binding_eq_none {t : AVLTreeNode} : t.binding = none ↔ t = nil := by
  cases t <;> simp [binding]

/-- In key order, each region ends at or before the next one begins. -/
def Separated (t : AVLTreeNode) : Prop := (toList t).Pairwise fun p q => p.1 + p.2 ≤ q.1

/-- `FindRangeAVL`'s walk returns the first region, in key order, that holds `a`. -/
theorem findRange_binding (cmp : AVLComparator) (a : Nat) : ∀ t : AVLTreeNode,
    Lawful cmp a t → Separated t → (∀ p ∈ toList t, 0 < p.2 ∧ p.1 + p.2 < 2 ^ 64) →
      (findRange cmp a t).binding = (toList t).find? fun p => decide (p.1 ≤ a ∧ a < p.1 + p.2)
  | nil, _, _, _ => rfl
  | node k v h l r d, hc, hs, hv => by
    obtain ⟨hsl, hskr, hlk⟩ := List.pairwise_append.1 hs
    obtain ⟨hrk, hsr⟩ := List.pairwise_cons.1 hskr
    have hl : ∀ p ∈ toList l, p.1 + p.2 ≤ k := fun p hp => hlk p hp (k, v) (by simp)
    obtain ⟨hv0, hv64⟩ := hv (k, v) (by simp)
    have hvl : ∀ p ∈ toList l, 0 < p.2 ∧ p.1 + p.2 < 2 ^ 64 := fun p hp => hv p (by simp [hp])
    have hvr : ∀ p ∈ toList r, 0 < p.2 ∧ p.1 + p.2 < 2 ^ 64 := fun p hp => hv p (by simp [hp])
    -- no region left of `k` holds an address at or above `k`
    have hnl : k ≤ a → (toList l).find? (fun p => decide (p.1 ≤ a ∧ a < p.1 + p.2)) = none :=
      fun hka => List.find?_eq_none.2 fun p hp => by have := hl p hp; simp; omega
    simp only [findRange, toList_node, List.find?_append, List.find?_cons]
    rcases Nat.lt_trichotomy a k with hlt | rfl | hgt
    · -- `a` lies left of `k`: neither `k`'s region nor any region right of it holds `a`
      have hnr : (toList r).find? (fun p => decide (p.1 ≤ a ∧ a < p.1 + p.2)) = none :=
        List.find?_eq_none.2 fun q hq => by have := hrk q hq; simp; omega
      rw [if_pos (hc.root.1.2 hlt), findRange_binding cmp a l hc.left hsl hvl,
        decide_eq_false (by omega), hnr]
      cases (toList l).find? _ <;> rfl
    · rw [if_neg fun h' => absurd (hc.root.1.1 h') (lt_irrefl _),
        if_neg fun h' => absurd (hc.root.2.1 h') (lt_irrefl _), hnl le_rfl,
        decide_eq_true (by omega)]
      rfl
    · rw [if_neg fun h' => absurd (hc.root.1.1 h') (by omega), if_pos (hc.root.2.2 hgt),
        Nat.mod_eq_of_lt hv64, hnl hgt.le]
      by_cases hend : a < k + v
      · rw [if_pos hend, decide_eq_true ⟨hgt.le, hend⟩]; rfl
      · rw [if_neg hend, decide_eq_false (by omega),
          findRange_binding cmp a r hc.right hsr hvr]
        rfl

end AVLTreeNode

/-- Disjoint non-empty regions in key order are separated. -/
theorem separated_of_disjoint {L : List (Nat × Nat)} (ho : L.Pairwise fun p q => p.1 < q.1)
    (hv : ∀ p ∈ L, 0 < p.2)
    (hdis : ∀ p ∈ L, ∀ q ∈ L, p ≠ q → ∀ x, ¬((p.1 ≤ x ∧ x < p.1 + p.2) ∧ q.1 ≤ x ∧ x < q.1 + q.2)) :
    L.Pairwise fun p q => p.1 + p.2 ≤ q.1 :=
  ho.imp_of_mem fun {p q} hp hq hlt => by
    by_contra hc
    exact hdis p hp q hq (fun e => by rw [e] at hlt; exact lt_irrefl _ hlt) q.1
      ⟨⟨hlt.le, by omega⟩, le_rfl, by have := hv q hq; omega⟩

/-- On a reachable tree whose regions are non-empty, below `2 ^ 64` and pairwise disjoint,
`FindRangeAVL(a)` for an address below `2 ^ 63` returns the node whose region holds `a`, and
`NULL` exactly when no region holds `a`. -/
theorem findRangeAVL_covers {data : AVLTreeData} (hd : Reachable data)
    (hv : ∀ p ∈ toList data.root, 0 < p.2 ∧ p.1 + p.2 < 2 ^ 64)
    (hdis : ∀ p ∈ toList data.root, ∀ q ∈ toList data.root, p ≠ q →
      ∀ x, ¬((p.1 ≤ x ∧ x < p.1 + p.2) ∧ q.1 ≤ x ∧ x < q.1 + q.2))
    {a : Nat} (ha : a < 2 ^ 63) :
    (∀ k v, (findRangeAVL data a).binding = some (k, v) ↔
      (k, v) ∈ toList data.root ∧ k ≤ a ∧ a < k + v) ∧
    (findRangeAVL data a = nil ↔ ∀ p ∈ toList data.root, ¬(p.1 ≤ a ∧ a < p.1 + p.2)) := by
  have hw := WF.of_reachable hd
  have hfind := findRange_binding data.comparator a data.root (hw.lawful ha)
    (separated_of_disjoint hw.ordered (fun p hp => (hv p hp).1) hdis) hv
  rw [findRangeAVL, hfind]
  refine ⟨fun k v => ⟨fun h => ?_, fun ⟨hmem, hcov⟩ => ?_⟩, ?_⟩
  · exact ⟨List.mem_of_find?_eq_some h, by simpa using List.find?_some h⟩
  · cases hq : (toList data.root).find? fun p => decide (p.1 ≤ a ∧ a < p.1 + p.2) with
    | none => exact absurd (List.find?_eq_none.1 hq (k, v) hmem) (by simpa using hcov)
    | some q =>
      have hqcov : q.1 ≤ a ∧ a < q.1 + q.2 := by simpa using List.find?_some hq
      by_contra hne
      exact hdis q (List.mem_of_find?_eq_some hq) (k, v) hmem (fun e => hne (by rw [e])) a
        ⟨hqcov, hcov⟩
  · rw [← binding_eq_none, hfind, List.find?_eq_none]
    simp

/-- Regions `[1, 2)` and `[2 ^ 63 - 1, 2 ^ 63 + 3)`, inserted in that order: the first is the
root and the second its right child. -/
def twoRegions : AVLTreeData :=
  (insertAVL (insertAVL (createAVL myComparator) 1 1).1 (2 ^ 63 - 1) 4).1

/-- The walk for `2 ^ 63 - 1` passes the root on its right side and returns the second region. -/
theorem findRangeAVL_covers_two :
    Reachable twoRegions ∧
    (∀ p ∈ toList twoRegions.root, 0 < p.2 ∧ p.1 + p.2 < 2 ^ 64) ∧
    (∀ p ∈ toList twoRegions.root, ∀ q ∈ toList twoRegions.root, p ≠ q →
      ∀ x, ¬((p.1 ≤ x ∧ x < p.1 + p.2) ∧ q.1 ≤ x ∧ x < q.1 + q.2)) ∧
    2 ^ 63 - 1 < 2 ^ 63 ∧
    (findRangeAVL twoRegions (2 ^ 63 - 1)).binding = some (2 ^ 63 - 1, 4) ∧
    (findRangeAVL twoRegions (2 ^ 63 - 1) = nil ↔
      ∀ p ∈ toList twoRegions.root, ¬(p.1 ≤ 2 ^ 63 - 1 ∧ 2 ^ 63 - 1 < p.1 + p.2)) := by
  have hd : Reachable twoRegions := .insert _ _ (.insert _ _ .create (by decide)) (by decide)
  have hlist : toList twoRegions.root = [(1, 1), (2 ^ 63 - 1, 4)] := by decide
  have hv : ∀ p ∈ toList twoRegions.root, 0 < p.2 ∧ p.1 + p.2 < 2 ^ 64 := by
    rw [hlist]; decide
  have hdis : ∀ p ∈ toList twoRegions.root, ∀ q ∈ toList twoRegions.root, p ≠ q →
      ∀ x, ¬((p.1 ≤ x ∧ x < p.1 + p.2) ∧ q.1 ≤ x ∧ x < q.1 + q.2) := by
    rw [hlist]
    simp only [List.mem_cons, List.mem_singleton, List.not_mem_nil, or_false]
    rintro p (rfl | rfl) q (rfl | rfl) hne x <;> first | exact absurd rfl hne | omega
  have hc := findRangeAVL_covers hd hv hdis (a := 2 ^ 63 - 1) (by decide)
  exact ⟨hd, hv, hdis, by decide,
    (hc.1 _ _).2 ⟨by rw [hlist]; simp, by norm_num, by norm_num⟩, hc.2⟩

/-- Regions `[1, 2)` and `[2 ^ 63 - 1, 2 ^ 63 + 3)`: the address `2 ^ 63 + 1` lies in the second,
but its signed difference with the root key `1` is negative, so the walk goes left of the root
and returns `NULL`. -/
theorem findRangeAVL_misses_high_address :
    Reachable (insertAVL (insertAVL (createAVL myComparator) 1 1).1 (2 ^ 63 - 1) 4).1 ∧
    toList (insertAVL (insertAVL (createAVL myComparator) 1 1).1 (2 ^ 63 - 1) 4).1.root =
      [(1, 1), (2 ^ 63 - 1, 4)] ∧
    findRangeAVL (insertAVL (insertAVL (createAVL myComparator) 1 1).1 (2 ^ 63 - 1) 4).1
      (2 ^ 63 + 1) = nil :=
  ⟨.insert _ _ (.insert _ _ .create (by decide)) (by decide), by decide, by decide⟩

end SbllMalloc.Avl
