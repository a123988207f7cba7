import SbllMalloc.Avl.Map

/-!
# The records `TraverseAVL` reports

`TraverseAVL` hands the visitor each node's key, value and `dirty` flag, in key order
(`traverse`). Rotations move whole nodes, so rebalancing keeps every record as it is. `Remove`
does not: a found node with a child takes the key and value of its in-order successor (or, with
no right child, its predecessor) and frees that node, while its own `dirty` flag (and
`callStack`, which the model leaves out) stays in place. The neighbour's key is reported from
then on with the removed key's flag, and its own flag is gone.

`RemovedRecord T T'` says `T'` is `T` with one record cut out, in one of the three ways `Remove`
does it; `removeAVL_records` shows `RemoveAVL` of a bound key does exactly that to the records of
a reachable tree.
-/

namespace SbllMalloc.Avl

open AVLTreeNode

namespace AVLTreeNode

/-! ## Rebalancing keeps the records -/

@[simp] theorem traverse_nil : traverse nil = [] := rfl

@[simp] theorem traverse_node (k v h : Nat) (l r : AVLTreeNode) (d : Bool) :
    traverse (node k v h l r d) = traverse l ++ (k, v, d) :: traverse r := rfl

@[simp] theorem traverse_fixHeight (t : AVLTreeNode) : traverse (fixHeight t) = traverse t := by
  cases t <;> rfl

@[simp] theorem traverse_rotateSingleRight (t : AVLTreeNode) :
    traverse (rotateSingleRight t) = traverse t := by
  rcases t with _ | ⟨k, v, h, _ | ⟨dk, dv, dh, a, b, dd⟩, c, d⟩ <;> simp [rotateSingleRight]

@[simp] theorem traverse_rotateSingleLeft (t : AVLTreeNode) :
    traverse (rotateSingleLeft t) = traverse t := by
  rcases t with _ | ⟨k, v, h, a, _ | ⟨ek, ev, eh, b, c, ed⟩, d⟩ <;> simp [rotateSingleLeft]

@[simp] theorem traverse_balance (t : AVLTreeNode) : traverse (balance t) = traverse t := by
  cases t with
  | nil => rfl
  | node => simp only [balance]; split_ifs <;> simp [rotateDoubleRight, rotateDoubleLeft]

/-- The record of the removed left-most node comes first. -/
theorem traverse_removeLeftMost (t : AVLTreeNode) (ht : t ≠ nil) :
    ∃ d, traverse t = ((removeLeftMost t).2.1, (removeLeftMost t).2.2, d) ::
      traverse (removeLeftMost t).1 := by
  induction t with
  | nil => exact absurd rfl ht
  | node k v h l r d ihl _ =>
    cases l with
    | nil => exact ⟨d, rfl⟩
    | node =>
      obtain ⟨d', hd'⟩ := ihl (by simp)
      rw [removeLeftMost_node (by simp), traverse_node, hd']
      exact ⟨d', by simp⟩

/-- The record of the removed right-most node comes last. -/
theorem traverse_removeRightMost (t : AVLTreeNode) (ht : t ≠ nil) :
    ∃ d, traverse t = traverse (removeRightMost t).1 ++
      [((removeRightMost t).2.1, (removeRightMost t).2.2, d)] := by
  induction t with
  | nil => exact absurd rfl ht
  | node k v h l r d _ ihr =>
    cases r with
    | nil => exact ⟨d, by simp [removeRightMost]⟩
    | node =>
      obtain ⟨d', hd'⟩ := ihr (by simp)
      rw [removeRightMost_node (by simp), traverse_node, hd']
      exact ⟨d', by simp⟩

end AVLTreeNode

/-! ## What `Remove` does to the records -/

/-- `T'` is `T` with the record of `key` (value `v`) cut out: the other records stay, or the
next one, or the one before, takes the cut record's flag. -/
def RemovedRecord (key v : Nat) (T T' : List (Nat × Nat × Bool)) : Prop :=
  ∃ A B d, T = A ++ (key, v, d) :: B ∧
    (T' = A ++ B ∨
     (∃ k₁ v₁ d₁ B₀, B = (k₁, v₁, d₁) :: B₀ ∧ T' = A ++ (k₁, v₁, d) :: B₀) ∨
     (∃ A₀ k₀ v₀ d₀, A = A₀ ++ [(k₀, v₀, d₀)] ∧ T' = A₀ ++ (k₀, v₀, d) :: B))

/-- Records around the cut stay as they are. -/
theorem RemovedRecord.wrap {key v : Nat} {T T' : List (Nat × Nat × Bool)}
    (h : RemovedRecord key v T T') (P S : List (Nat × Nat × Bool)) :
    RemovedRecord key v (P ++ T ++ S) (P ++ T' ++ S) := by
  obtain ⟨A, B, d, rfl, h | ⟨k₁, v₁, d₁, B₀, rfl, rfl⟩ | ⟨A₀, k₀, v₀, d₀, rfl, rfl⟩⟩ := h
  · exact ⟨P ++ A, B ++ S, d, by simp, .inl (by simp [h])⟩
  · exact ⟨P ++ A, (k₁, v₁, d₁) :: (B₀ ++ S), d, by simp,
      .inr (.inl ⟨k₁, v₁, d₁, B₀ ++ S, rfl, by simp⟩)⟩
  · exact ⟨P ++ (A₀ ++ [(k₀, v₀, d₀)]), B ++ S, d, by simp,
      .inr (.inr ⟨P ++ A₀, k₀, v₀, d₀, by simp, by simp⟩)⟩

namespace AVLTreeNode

/-- A found node takes its successor's key and value, or its predecessor's, and keeps its flag;
a leaf disappears. -/
theorem traverse_remove_found {cmp : AVLComparator} {key k v h s : Nat} {l r : AVLTreeNode}
    {d : Bool} (hc1 : ¬cmp key k < 0) (hc2 : ¬0 < cmp key k) :
    RemovedRecord k v (traverse (node k v h l r d)) (traverse (remove cmp key (node k v h l r d) s).1) := by
  cases r with
  | node rk rv rh rl rr rd =>
    obtain ⟨d₁, hd₁⟩ := traverse_removeLeftMost (node rk rv rh rl rr rd) (by simp)
    refine ⟨traverse l, traverse (node rk rv rh rl rr rd), d, rfl,
      .inr (.inl ⟨_, _, d₁, _, hd₁, ?_⟩)⟩
    simp [remove, if_neg hc1, if_neg hc2]
  | nil =>
    cases l with
    | nil => exact ⟨[], [], d, rfl, .inl (by simp [remove, if_neg hc1, if_neg hc2])⟩
    | node lk lv lh ll lr ld =>
      obtain ⟨d₀, hd₀⟩ := traverse_removeRightMost (node lk lv lh ll lr ld) (by simp)
      refine ⟨traverse (node lk lv lh ll lr ld), [], d, by simp, .inr (.inr ⟨_, _, _, d₀, hd₀, ?_⟩)⟩
      simp [remove, if_neg hc1, if_neg hc2]

/-- Removing a bound key cuts its record out, as `RemovedRecord` says. -/
theorem traverse_remove_present (cmp : AVLComparator) (key v' : Nat) :
    ∀ (t : AVLTreeNode) (s : Nat), Ordered t → Lawful cmp key t → (key, v') ∈ toList t →
      RemovedRecord key v' (traverse t) (traverse (remove cmp key t s).1)
  | nil, _, _, _, hm => by simp at hm
  | node k v h l r d, s, ho, hc, hm => by
    simp only [toList_node, List.mem_append, List.mem_cons] at hm
    rcases hm with hm | hm | hm
    · have hlt := ho.lt_root _ hm
      rw [remove_lt (hc.root.1.2 hlt), traverse_balance, traverse_node, traverse_node]
      simpa using (traverse_remove_present cmp key v' l s ho.left hc.left hm).wrap []
        ((k, v, d) :: traverse r)
    · obtain ⟨rfl, rfl⟩ := Prod.mk.inj hm
      exact traverse_remove_found (fun h' => absurd (hc.root.1.1 h') (lt_irrefl _))
        (fun h' => absurd (hc.root.2.1 h') (lt_irrefl _))
    · have hgt := ho.root_lt _ hm
      rw [remove_gt (fun h' => absurd (hc.root.1.1 h') (by simp at hgt ⊢; omega))
        (hc.root.2.2 hgt), traverse_balance, traverse_node, traverse_node]
      simpa using (traverse_remove_present cmp key v' r s ho.right hc.right hm).wrap
        (traverse l ++ [(k, v, d)]) []

end AVLTreeNode

/-- On a reachable tree, `RemoveAVL` of a bound key cuts its record out of what `TraverseAVL`
reports; when the key's node had a child, the record of its in-order successor (or predecessor)
is reported from then on with the removed key's `dirty` flag. -/
theorem removeAVL_records {data : AVLTreeData} (hd : Reachable data) {key v : Nat}
    (hk : key < 2 ^ 63) (hb : data.lookup key = some v) :
    RemovedRecord key v (traverseAVL data fun _ _ d => d).2
      (traverseAVL (removeAVL data key).1 fun _ _ d => d).2 := by
  have hw := WF.of_reachable hd
  exact traverse_remove_present data.comparator key v data.root data.size hw.ordered
    (hw.lawful hk) (hw.lookup_some_iff.1 hb)

/-- Keys `1` and `2` in one tree (`2` is the right child of `1`), a dirty write to the region of
`2` through `TraverseAVL`, then `RemoveAVL(1)`: `2` is reported clean. -/
theorem removeAVL_records_moves_dirty :
    Reachable (traverseAVL (insertAVL (insertAVL (createAVL myComparator) 1 1).1 2 1).1
      fun k _ d => d || k == 2).1 ∧ (1 : Nat) < 2 ^ 63 ∧
    (traverseAVL (insertAVL (insertAVL (createAVL myComparator) 1 1).1 2 1).1
      fun k _ d => d || k == 2).1.lookup 1 = some 1 ∧
    RemovedRecord 1 1
      (traverseAVL (traverseAVL (insertAVL (insertAVL (createAVL myComparator) 1 1).1 2 1).1
        fun k _ d => d || k == 2).1 fun _ _ d => d).2
      (traverseAVL (removeAVL (traverseAVL (insertAVL (insertAVL (createAVL myComparator) 1 1).1
        2 1).1 fun k _ d => d || k == 2).1 1).1 fun _ _ d => d).2 ∧
    (traverseAVL (traverseAVL (insertAVL (insertAVL (createAVL myComparator) 1 1).1 2 1).1
        fun k _ d => d || k == 2).1 fun _ _ d => d).2 = [(1, 1, false), (2, 1, true)] ∧
    (traverseAVL (removeAVL (traverseAVL (insertAVL (insertAVL (createAVL myComparator) 1 1).1
        2 1).1 fun k _ d => d || k == 2).1 1).1 fun _ _ d => d).2 = [(2, 1, false)] := by
  have hd : Reachable (traverseAVL (insertAVL (insertAVL (createAVL myComparator) 1 1).1 2 1).1
      fun k _ d => d || k == 2).1 :=
    .traverse _ (.insert _ _ (.insert _ _ .create (by decide)) (by decide))
  have hb : (traverseAVL (insertAVL (insertAVL (createAVL myComparator) 1 1).1 2 1).1
      fun k _ d => d || k == 2).1.lookup 1 = some 1 := by decide
  exact ⟨hd, by decide, hb, removeAVL_records hd (by decide) hb, by decide, by decide⟩

end SbllMalloc.Avl
