import SbllMalloc.Avl.Tree

/-!
# The allocation index is a finite map

A tree stands for the list of its bindings in order (`toList`); it is a search tree when the
keys of that list strictly increase (`Ordered`). Rotations, `fixHeight` and so `balance` leave
the list unchanged whatever the stored heights are, so the height slip of `RotateSingleRight`
(`Avl/Height.lean`) does not reach the map. `Insert` and `Remove` then insert and delete one
binding, provided the comparator orders the keys they meet as numbers (`Lawful`), which
`myComparator` does below `2 ^ 63`.

The contract is stated over `AVLTreeData.lookup`, the map of the binding list, for every tree
`Reachable` from `createAVL myComparator`.
-/

namespace SbllMalloc.Avl

open AVLTreeNode

namespace AVLTreeNode

/-- The bindings of a tree, in order. -/
def toList : AVLTreeNode → List (Nat × Nat)
  | nil => []
  | node k v _ l r _ => toList l ++ (k, v) :: toList r

@[simp] theorem toList_nil : toList nil = [] := rfl

@[simp] theorem toList_node (k v h : Nat) (l r : AVLTreeNode) (d : Bool) :
    toList (node k v h l r d) = toList l ++ (k, v) :: toList r := rfl

/-- Keys strictly increase in order: the search-tree property. -/
def Ordered (t : AVLTreeNode) : Prop := (toList t).Pairwise (fun p q => p.1 < q.1)

/-- `cmp key` orders every key of `t` as the numbers do. -/
def Lawful (cmp : AVLComparator) (key : Nat) (t : AVLTreeNode) : Prop :=
  ∀ p ∈ toList t, (cmp key p.1 < 0 ↔ key < p.1) ∧ (0 < cmp key p.1 ↔ p.1 < key)

/-! ## Rebalancing keeps the bindings -/

@[simp] theorem toList_fixHeight (t : AVLTreeNode) : toList (fixHeight t) = toList t := by
  cases t <;> rfl

@[simp] theorem toList_rotateSingleRight (t : AVLTreeNode) :
    toList (rotateSingleRight t) = toList t := by
  rcases t with _ | ⟨k, v, h, _ | ⟨dk, dv, dh, a, b, dd⟩, c, d⟩ <;> simp [rotateSingleRight]

@[simp] theorem toList_rotateSingleLeft (t : AVLTreeNode) :
    toList (rotateSingleLeft t) = toList t := by
  rcases t with _ | ⟨k, v, h, a, _ | ⟨ek, ev, eh, b, c, ed⟩, d⟩ <;> simp [rotateSingleLeft]

@[simp] theorem toList_rotateDoubleRight (t : AVLTreeNode) :
    toList (rotateDoubleRight t) = toList t := by
  cases t <;> simp [rotateDoubleRight]

@[simp] theorem toList_rotateDoubleLeft (t : AVLTreeNode) :
    toList (rotateDoubleLeft t) = toList t := by
  cases t <;> simp [rotateDoubleLeft]

@[simp] theorem toList_balance (t : AVLTreeNode) : toList (balance t) = toList t := by
  cases t with
  | nil => rfl
  | node => simp only [balance]; split_ifs <;> simp

@[simp] theorem toList_mapDirty (visit : Nat → Nat → Bool → Bool) (t : AVLTreeNode) :
    toList (mapDirty visit t) = toList t := by
  induction t <;> simp [mapDirty, *]

/-! ## `Balance` ignores the node's own stored height -/

theorem fixHeight_rotateSingleRight_height (k v h₁ h₂ : Nat) (l r : AVLTreeNode) (d : Bool) :
    fixHeight (rotateSingleRight (node k v h₁ l r d)) =
      fixHeight (rotateSingleRight (node k v h₂ l r d)) := by
  cases l <;> rfl

theorem fixHeight_rotateSingleLeft_height (k v h₁ h₂ : Nat) (l r : AVLTreeNode) (d : Bool) :
    fixHeight (rotateSingleLeft (node k v h₁ l r d)) =
      fixHeight (rotateSingleLeft (node k v h₂ l r d)) := by
  cases r <;> rfl

theorem balance_node_height (k v h₁ h₂ : Nat) (l r : AVLTreeNode) (d : Bool) :
    balance (node k v h₁ l r d) = balance (node k v h₂ l r d) := by
  simp only [balance, getBalance, left, right, rotateDoubleRight, rotateDoubleLeft]
  split_ifs
  all_goals first
    | rfl
    | exact fixHeight_rotateSingleRight_height ..
    | exact fixHeight_rotateSingleLeft_height ..

/-! ## One step of each recursion

The source creates a missing child in the parent's frame and bumps the parent's height; since
`balance` recomputes that height, this is the same as recursing into the empty child. -/

section Steps

variable {cmp : AVLComparator} {key value k v h s : Nat} {l r : AVLTreeNode} {d : Bool}

theorem insert_lt (hc : cmp key k < 0) :
    insert cmp key value (node k v h l r d) s =
      (balance (node k v h (insert cmp key value l s).1 r d), (insert cmp key value l s).2) := by
  cases l with
  | nil => simp only [insert, if_pos hc]; rw [balance_node_height]
  | node => simp only [insert, if_pos hc]

theorem insert_gt (hc : ¬cmp key k < 0) (hc' : 0 < cmp key k) :
    insert cmp key value (node k v h l r d) s =
      (balance (node k v h l (insert cmp key value r s).1 d), (insert cmp key value r s).2) := by
  cases r with
  | nil => simp only [insert, if_neg hc, if_pos hc']; rw [balance_node_height]
  | node => simp only [insert, if_neg hc, if_pos hc']

theorem insert_eq (hc : ¬cmp key k < 0) (hc' : ¬0 < cmp key k) :
    insert cmp key value (node k v h l r d) s = (node k v h l r d, s, v) := by
  simp only [insert, if_neg hc, if_neg hc']

theorem removeLeftMost_node (hl : l ≠ nil) :
    removeLeftMost (node k v h l r d) =
      (balance (node k v h (removeLeftMost l).1 r d), (removeLeftMost l).2) := by
  cases l with
  | nil => exact absurd rfl hl
  | node => simp only [removeLeftMost]; rw [balance_node_height]

theorem removeRightMost_node (hr : r ≠ nil) :
    removeRightMost (node k v h l r d) =
      (balance (node k v h l (removeRightMost r).1 d), (removeRightMost r).2) := by
  cases r with
  | nil => exact absurd rfl hr
  | node => simp only [removeRightMost]; rw [balance_node_height]

theorem remove_lt (hc : cmp key k < 0) :
    remove cmp key (node k v h l r d) s =
      (balance (node k v h (remove cmp key l s).1 r d), (remove cmp key l s).2) := by
  simp only [remove, if_pos hc]

theorem remove_gt (hc : ¬cmp key k < 0) (hc' : 0 < cmp key k) :
    remove cmp key (node k v h l r d) s =
      (balance (node k v h l (remove cmp key r s).1 d), (remove cmp key r s).2) := by
  simp only [remove, if_neg hc, if_pos hc']

end Steps

/-! ## What each operation does to the bindings -/

/-- The removed left-most binding is the first one, and the rest follow it. -/
theorem toList_removeLeftMost (t : AVLTreeNode) (ht : t ≠ nil) :
    toList t = (removeLeftMost t).2 :: toList (removeLeftMost t).1 := by
  induction t with
  | nil => exact absurd rfl ht
  | node k v h l r d ihl _ =>
    cases l with
    | nil => rfl
    | node =>
      rw [removeLeftMost_node (by simp), toList_node, ihl (by simp)]
      simp

/-- The removed right-most binding is the last one. -/
theorem toList_removeRightMost (t : AVLTreeNode) (ht : t ≠ nil) :
    toList t = toList (removeRightMost t).1 ++ [(removeRightMost t).2] := by
  induction t with
  | nil => exact absurd rfl ht
  | node k v h l r d _ ihr =>
    cases r with
    | nil => simp [removeRightMost]
    | node =>
      rw [removeRightMost_node (by simp), toList_node, ihr (by simp)]
      simp

/-! ## Search-tree facts -/

section Search

variable {cmp : AVLComparator} {key k v h : Nat} {l r : AVLTreeNode} {d : Bool}

theorem Ordered.left (ho : Ordered (node k v h l r d)) : Ordered l :=
  (List.pairwise_append.1 ho).1

theorem Ordered.right (ho : Ordered (node k v h l r d)) : Ordered r :=
  (List.pairwise_cons.1 (List.pairwise_append.1 ho).2.1).2

theorem Ordered.lt_root (ho : Ordered (node k v h l r d)) : ∀ p ∈ toList l, p.1 < k :=
  fun p hp => (List.pairwise_append.1 ho).2.2 p hp (k, v) (by simp)

theorem Ordered.root_lt (ho : Ordered (node k v h l r d)) : ∀ p ∈ toList r, k < p.1 :=
  (List.pairwise_cons.1 (List.pairwise_append.1 ho).2.1).1

theorem Lawful.left (hc : Lawful cmp key (node k v h l r d)) : Lawful cmp key l :=
  fun p hp => hc p (by simp [hp])

theorem Lawful.right (hc : Lawful cmp key (node k v h l r d)) : Lawful cmp key r :=
  fun p hp => hc p (by simp [hp])

theorem Lawful.root (hc : Lawful cmp key (node k v h l r d)) :
    (cmp key k < 0 ↔ key < k) ∧ (0 < cmp key k ↔ k < key) :=
  hc (k, v) (by simp)

end Search

/-- Inserting `key` where it is absent puts its binding between the smaller and larger keys. -/
theorem insert_absent (cmp : AVLComparator) (key value : Nat) :
    ∀ (t : AVLTreeNode) (s : Nat), Ordered t → Lawful cmp key t → (∀ p ∈ toList t, p.1 ≠ key) →
      ∃ A B, toList t = A ++ B ∧ (∀ p ∈ A, p.1 < key) ∧ (∀ p ∈ B, key < p.1) ∧
        toList (insert cmp key value t s).1 = A ++ (key, value) :: B ∧
        (insert cmp key value t s).2 = (s + 1, 0)
  | nil, _, _, _, _ => ⟨[], [], rfl, by simp, by simp, rfl, rfl⟩
  | node k v h l r d, s, ho, hc, hk => by
    have hkk : key ≠ k := fun e => hk (k, v) (by simp) e.symm
    rcases Nat.lt_or_gt_of_ne hkk with hlt | hgt
    · obtain ⟨A, B, hl, hA, hB, hins, hres⟩ :=
        insert_absent cmp key value l s ho.left hc.left fun p hp => hk p (by simp [hp])
      refine ⟨A, B ++ (k, v) :: toList r, by simp [hl], hA, ?_, ?_, ?_⟩
      · intro p hp
        simp only [List.mem_append, List.mem_cons] at hp
        rcases hp with hp | rfl | hp
        · exact hB p hp
        · exact hlt
        · exact hlt.trans (ho.root_lt p hp)
      · rw [insert_lt (hc.root.1.2 hlt)]; simp [hins]
      · rw [insert_lt (hc.root.1.2 hlt)]; exact hres
    · have hnl : ¬cmp key k < 0 := fun h' => absurd (hc.root.1.1 h') (by omega)
      obtain ⟨A, B, hr, hA, hB, hins, hres⟩ :=
        insert_absent cmp key value r s ho.right hc.right fun p hp => hk p (by simp [hp])
      refine ⟨toList l ++ (k, v) :: A, B, by simp [hr], ?_, hB, ?_, ?_⟩
      · intro p hp
        simp only [List.mem_append, List.mem_cons] at hp
        rcases hp with hp | rfl | hp
        · exact (ho.lt_root p hp).trans hgt
        · exact hgt
        · exact hA p hp
      · rw [insert_gt hnl (hc.root.2.2 hgt)]; simp [hins]
      · rw [insert_gt hnl (hc.root.2.2 hgt)]; exact hres

/-- Inserting a bound key returns its value and changes no binding. -/
theorem insert_present (cmp : AVLComparator) (key value v' : Nat) :
    ∀ (t : AVLTreeNode) (s : Nat), Ordered t → Lawful cmp key t → (key, v') ∈ toList t →
      toList (insert cmp key value t s).1 = toList t ∧ (insert cmp key value t s).2 = (s, v')
  | nil, _, _, _, hm => by simp at hm
  | node k v h l r d, s, ho, hc, hm => by
    simp only [toList_node, List.mem_append, List.mem_cons] at hm
    rcases hm with hm | hm | hm
    · have hlt := ho.lt_root _ hm
      obtain ⟨h1, h2⟩ := insert_present cmp key value v' l s ho.left hc.left hm
      rw [insert_lt (hc.root.1.2 hlt)]; simp [h1, h2]
    · obtain ⟨rfl, rfl⟩ := Prod.mk.inj hm
      rw [insert_eq (fun h' => absurd (hc.root.1.1 h') (lt_irrefl _))
        (fun h' => absurd (hc.root.2.1 h') (lt_irrefl _))]
      exact ⟨rfl, rfl⟩
    · have hgt := ho.root_lt _ hm
      obtain ⟨h1, h2⟩ := insert_present cmp key value v' r s ho.right hc.right hm
      rw [insert_gt (fun h' => absurd (hc.root.1.1 h') (by simp at hgt ⊢; omega))
        (hc.root.2.2 hgt)]
      simp [h1, h2]

/-- A found node gives way to its successor, or to its predecessor, or disappears. -/
theorem remove_found {cmp : AVLComparator} {key k v h s : Nat} {l r : AVLTreeNode} {d : Bool}
    (hc1 : ¬cmp key k < 0) (hc2 : ¬0 < cmp key k) :
    toList (remove cmp key (node k v h l r d) s).1 = toList l ++ toList r ∧
      (remove cmp key (node k v h l r d) s).2 = (s - 1, v) := by
  cases r with
  | node rk rv rh rl rr rd =>
    simp only [remove, if_neg hc1, if_neg hc2, toList_balance, true_and]
    rw [toList_node, toList_removeLeftMost (node rk rv rh rl rr rd) (by simp)]
    simp
  | nil =>
    cases l with
    | nil => simp [remove, if_neg hc1, if_neg hc2]
    | node lk lv lh ll lr ld =>
      simp only [remove, if_neg hc1, if_neg hc2, toList_balance, true_and]
      rw [toList_node, toList_removeRightMost (node lk lv lh ll lr ld) (by simp)]
      simp

/-- Removing a bound key cuts its binding out and returns its value. -/
theorem remove_present (cmp : AVLComparator) (key v' : Nat) :
    ∀ (t : AVLTreeNode) (s : Nat), Ordered t → Lawful cmp key t → (key, v') ∈ toList t →
      ∃ A B, toList t = A ++ (key, v') :: B ∧ toList (remove cmp key t s).1 = A ++ B ∧
        (remove cmp key t s).2 = (s - 1, v')
  | nil, _, _, _, hm => by simp at hm
  | node k v h l r d, s, ho, hc, hm => by
    simp only [toList_node, List.mem_append, List.mem_cons] at hm
    rcases hm with hm | hm | hm
    · have hlt := ho.lt_root _ hm
      obtain ⟨A, B, hl, hrem, hres⟩ := remove_present cmp key v' l s ho.left hc.left hm
      rw [remove_lt (hc.root.1.2 hlt)]
      exact ⟨A, B ++ (k, v) :: toList r, by simp [hl], by simp [hrem], hres⟩
    · obtain ⟨rfl, rfl⟩ := Prod.mk.inj hm
      obtain ⟨h1, h2⟩ := @remove_found cmp key key v' h s l r d
        (fun h' => absurd (hc.root.1.1 h') (lt_irrefl _))
        (fun h' => absurd (hc.root.2.1 h') (lt_irrefl _))
      exact ⟨toList l, toList r, rfl, h1, h2⟩
    · have hgt := ho.root_lt _ hm
      obtain ⟨A, B, hr, hrem, hres⟩ := remove_present cmp key v' r s ho.right hc.right hm
      rw [remove_gt (fun h' => absurd (hc.root.1.1 h') (by simp at hgt ⊢; omega)) (hc.root.2.2 hgt)]
      exact ⟨toList l ++ (k, v) :: A, B, by simp [hr], by simp [hrem], hres⟩

/-- Removing an unbound key changes no binding and returns `NULL`. -/
theorem remove_absent (cmp : AVLComparator) (key : Nat) :
    ∀ (t : AVLTreeNode) (s : Nat), Ordered t → Lawful cmp key t → (∀ p ∈ toList t, p.1 ≠ key) →
      toList (remove cmp key t s).1 = toList t ∧ (remove cmp key t s).2 = (s, 0)
  | nil, _, _, _, _ => ⟨rfl, rfl⟩
  | node k v h l r d, s, ho, hc, hk => by
    have hkk : key ≠ k := fun e => hk (k, v) (by simp) e.symm
    rcases Nat.lt_or_gt_of_ne hkk with hlt | hgt
    · obtain ⟨h1, h2⟩ := remove_absent cmp key l s ho.left hc.left fun p hp => hk p (by simp [hp])
      rw [remove_lt (hc.root.1.2 hlt)]; simp [h1, h2]
    · obtain ⟨h1, h2⟩ := remove_absent cmp key r s ho.right hc.right fun p hp => hk p (by simp [hp])
      rw [remove_gt (fun h' => absurd (hc.root.1.1 h') (by omega)) (hc.root.2.2 hgt)]
      simp [h1, h2]

/-- `FindAVL`'s loop returns the bound value, or `NULL` for an unbound key. -/
theorem find_eq (cmp : AVLComparator) (key : Nat) :
    ∀ (t : AVLTreeNode), Ordered t → Lawful cmp key t →
      find cmp key t = ((toList t).lookup key).getD 0
  | nil, _, _ => rfl
  | node k v h l r d, ho, hc => by
    have hl := find_eq cmp key l ho.left hc.left
    have hr := find_eq cmp key r ho.right hc.right
    have hnl : (toList l).lookup key = none ∨ key < k := by
      by_cases hlt : key < k
      · exact .inr hlt
      · exact .inl (List.lookup_eq_none_iff.2 fun p hp => by
          have := ho.lt_root p hp; simp only [bne_iff_ne]; omega)
    simp only [find, toList_node, List.lookup_append, List.lookup_cons]
    rcases Nat.lt_trichotomy key k with hlt | rfl | hgt
    · rw [if_pos (hc.root.1.2 hlt), hl]
      have : (toList r).lookup key = none := List.lookup_eq_none_iff.2 fun p hp => by
        have := ho.root_lt p hp; simp only [bne_iff_ne]; omega
      have hb : (key == k) = false := by simpa using Nat.ne_of_lt hlt
      cases (toList l).lookup key <;> simp [hb, this]
    · rw [if_neg fun h' => absurd (hc.root.1.1 h') (lt_irrefl _),
        if_neg fun h' => absurd (hc.root.2.1 h') (lt_irrefl _)]
      rcases hnl with hnl | hnl
      · simp [hnl]
      · exact absurd hnl (lt_irrefl _)
    · rw [if_neg fun h' => absurd (hc.root.1.1 h') (by omega), if_pos (hc.root.2.2 hgt), hr]
      rcases hnl with hnl | hnl
      · have hb : (key == k) = false := by simpa using Nat.ne_of_gt hgt
        simp [hnl, hb]
      · omega

end AVLTreeNode

/-! ## Lookup in a binding list with increasing keys -/

theorem lookup_eq_some_iff_mem {L : List (Nat × Nat)} (hL : L.Pairwise (fun p q => p.1 < q.1))
    {k v : Nat} : L.lookup k = some v ↔ (k, v) ∈ L := by
  induction L with
  | nil => simp
  | cons p L ih =>
    obtain ⟨a, b⟩ := p
    obtain ⟨hlt, hL⟩ := List.pairwise_cons.1 hL
    by_cases h : k = a
    · subst h
      have : (k, v) ∉ L := fun hm => lt_irrefl k (hlt (k, v) hm)
      simp only [List.lookup_cons_self, Option.some.injEq, List.mem_cons, Prod.mk.injEq, true_and,
        this, or_false]
      exact eq_comm
    · have hb : (k == a) = false := by simpa using h
      simp [List.lookup_cons, hb, h, ih hL]

theorem lookup_insertMid {A B : List (Nat × Nat)} {key value : Nat} (hA : ∀ p ∈ A, p.1 < key)
    (k : Nat) : (A ++ (key, value) :: B).lookup k =
      if k = key then some value else (A ++ B).lookup k := by
  have hnone : A.lookup key = none :=
    List.lookup_eq_none_iff.2 fun p hp => by have := hA p hp; simp only [bne_iff_ne]; omega
  simp only [List.lookup_append, List.lookup_cons]
  split_ifs with h
  · subst h; simp [hnone]
  · have hb : (k == key) = false := by simpa using h
    simp [hb]

/-- The bounds an increasing binding list puts on the neighbours of one binding. -/
theorem bounds_of_pairwise {A B : List (Nat × Nat)} {p : Nat × Nat}
    (h : (A ++ p :: B).Pairwise (fun p q => p.1 < q.1)) :
    (∀ q ∈ A, q.1 < p.1) ∧ (∀ q ∈ B, p.1 < q.1) ∧ (A ++ B).Pairwise (fun p q => p.1 < q.1) := by
  obtain ⟨hA, hpB, hAB⟩ := List.pairwise_append.1 h
  obtain ⟨hp, hB⟩ := List.pairwise_cons.1 hpB
  exact ⟨fun q hq => hAB q hq p (by simp), hp,
    List.pairwise_append.2 ⟨hA, hB, fun a ha b hb => hAB a ha b (by simp [hb])⟩⟩

theorem pairwise_insertMid {A B : List (Nat × Nat)} {key value : Nat}
    (h : (A ++ B).Pairwise (fun p q => p.1 < q.1)) (hA : ∀ p ∈ A, p.1 < key)
    (hB : ∀ p ∈ B, key < p.1) : (A ++ (key, value) :: B).Pairwise (fun p q => p.1 < q.1) := by
  obtain ⟨hA', hB', hAB⟩ := List.pairwise_append.1 h
  refine List.pairwise_append.2 ⟨hA', List.pairwise_cons.2 ⟨hB, hB'⟩, fun a ha b hb => ?_⟩
  simp only [List.mem_cons] at hb
  rcases hb with rfl | hb
  · exact hA a ha
  · exact hAB a ha b hb

/-! ## The comparator -/

/-- Below `2 ^ 63` the wrapped difference has the sign of the true difference. -/
theorem myComparator_lawful {a b : Nat} (ha : a < 2 ^ 63) (hb : b < 2 ^ 63) :
    (myComparator a b < 0 ↔ a < b) ∧ (0 < myComparator a b ↔ b < a) := by
  have hb' : b % 2 ^ 64 = b := Nat.mod_eq_of_lt (by omega)
  unfold myComparator
  simp only [hb']
  split_ifs <;> omega

/-! ## Reachable trees -/

/-- The map a tree stands for. -/
def AVLTreeData.lookup (data : AVLTreeData) (key : Nat) : Option Nat :=
  (toList data.root).lookup key

/-- Trees that `CreateAVL(MyComparator)` reaches through `InsertAVL`, `RemoveAVL` and
`TraverseAVL`, with keys below `2 ^ 63` (`FindAVL` changes nothing). -/
inductive Reachable : AVLTreeData → Prop
  | create : Reachable (createAVL myComparator)
  | insert {data : AVLTreeData} (key value : Nat) :
      Reachable data → key < 2 ^ 63 → Reachable (insertAVL data key value).1
  | remove {data : AVLTreeData} (key : Nat) :
      Reachable data → key < 2 ^ 63 → Reachable (removeAVL data key).1
  | traverse {data : AVLTreeData} (visit : Nat → Nat → Bool → Bool) :
      Reachable data → Reachable (traverseAVL data visit).1

/-- What every reachable tree keeps. -/
structure WF (data : AVLTreeData) : Prop where
  comparator : data.comparator = myComparator
  ordered : Ordered data.root
  small : ∀ p ∈ toList data.root, p.1 < 2 ^ 63
  size : data.size = (toList data.root).length

section Ops

variable {data : AVLTreeData} {key : Nat}

theorem WF.pairwise (hw : WF data) : (toList data.root).Pairwise (fun p q => p.1 < q.1) :=
  hw.ordered

theorem WF.lawful (hw : WF data) (hk : key < 2 ^ 63) : Lawful data.comparator key data.root :=
  fun p hp => hw.comparator ▸ myComparator_lawful hk (hw.small p hp)

theorem WF.lookup_some_iff (hw : WF data) {v : Nat} :
    data.lookup key = some v ↔ (key, v) ∈ toList data.root :=
  lookup_eq_some_iff_mem hw.ordered

/-- `InsertAVL` on a reachable tree, as a finite map. -/
theorem insertAVL_spec (hw : WF data) (hk : key < 2 ^ 63) (value : Nat) :
    WF (insertAVL data key value).1 ∧ (insertAVL data key value).2 = (data.lookup key).getD 0 ∧
      (insertAVL data key value).1.lookup =
        if (data.lookup key).isSome then data.lookup
        else Function.update data.lookup key (some value) := by
  cases hlk : data.lookup key with
  | some v' =>
    obtain ⟨h1, h2⟩ := insert_present data.comparator key value v' data.root data.size hw.ordered
      (hw.lawful hk) (hw.lookup_some_iff.1 hlk)
    refine ⟨⟨hw.comparator, ?_, ?_, ?_⟩, ?_, funext fun k => ?_⟩ <;>
      simp only [insertAVL, Ordered, toList_balance, h1, h2, AVLTreeData.lookup,
        Option.getD_some, Option.isSome_some, if_true]
    · exact hw.ordered
    · exact hw.small
    · exact hw.size
  | none =>
    have habs : ∀ p ∈ toList data.root, p.1 ≠ key := fun p hp e => by
      have := hw.lookup_some_iff.2 (e ▸ hp : (key, p.2) ∈ toList data.root)
      rw [hlk] at this; cases this
    obtain ⟨A, B, hAB, hA, hB, hins, hres⟩ := insert_absent data.comparator key value data.root
      data.size hw.ordered (hw.lawful hk) habs
    have hord := hAB ▸ hw.pairwise
    refine ⟨⟨hw.comparator, ?_, ?_, ?_⟩, ?_, ?_⟩ <;>
      simp only [insertAVL, Ordered, toList_balance, hins, hres, Option.getD_none,
        Option.isSome_none]
    · exact pairwise_insertMid hord hA hB
    · intro p hp
      simp only [List.mem_append, List.mem_cons] at hp
      rcases hp with hp | rfl | hp
      exacts [hw.small p (hAB ▸ List.mem_append_left _ hp), hk,
        hw.small p (hAB ▸ List.mem_append_right _ hp)]
    · simp [hw.size, hAB]; omega
    · funext k
      simp only [AVLTreeData.lookup, toList_balance, hins, lookup_insertMid hA, Function.update,
        Bool.false_eq_true, if_false, hAB]
      split_ifs with h <;> simp [h]

/-- `RemoveAVL` on a reachable tree, as a finite map. -/
theorem removeAVL_spec (hw : WF data) (hk : key < 2 ^ 63) :
    WF (removeAVL data key).1 ∧ (removeAVL data key).2 = (data.lookup key).getD 0 ∧
      (removeAVL data key).1.lookup = Function.update data.lookup key none := by
  cases hlk : data.lookup key with
  | some v' =>
    obtain ⟨A, B, hAB, hrem, hres⟩ := remove_present data.comparator key v' data.root data.size
      hw.ordered (hw.lawful hk) (hw.lookup_some_iff.1 hlk)
    obtain ⟨hA, hB, hord⟩ := bounds_of_pairwise (hAB ▸ hw.pairwise)
    refine ⟨⟨hw.comparator, ?_, ?_, ?_⟩, ?_, ?_⟩ <;>
      simp only [removeAVL, Ordered, hrem, hres, Option.getD_some]
    · exact hord
    · intro p hp
      exact hw.small p (hAB ▸ by simp at hp ⊢; tauto)
    · simp [hw.size, hAB]
    · funext k
      simp only [AVLTreeData.lookup, hrem, Function.update, hAB, lookup_insertMid hA]
      split_ifs with h
      · subst h
        exact List.lookup_eq_none_iff.2 fun p hp => by
          simp only [List.mem_append] at hp
          rcases hp with hp | hp
          · have := hA p hp; simp only [bne_iff_ne]; omega
          · have := hB p hp; simp only [bne_iff_ne]; omega
      · simp [h]
  | none =>
    have habs : ∀ p ∈ toList data.root, p.1 ≠ key := fun p hp e => by
      have := hw.lookup_some_iff.2 (e ▸ hp : (key, p.2) ∈ toList data.root)
      rw [hlk] at this; cases this
    obtain ⟨hrem, hres⟩ := remove_absent data.comparator key data.root data.size hw.ordered
      (hw.lawful hk) habs
    refine ⟨⟨hw.comparator, ?_, ?_, ?_⟩, ?_, funext fun k => ?_⟩ <;>
      simp only [removeAVL, Ordered, hrem, hres, Option.getD_none, AVLTreeData.lookup,
        Function.update_apply]
    · exact hw.ordered
    · exact hw.small
    · exact hw.size
    · split_ifs with h
      · subst h; exact hlk
      · rfl

theorem findAVL_spec (hw : WF data) (hk : key < 2 ^ 63) :
    findAVL data key = (data.lookup key).getD 0 :=
  find_eq data.comparator key data.root hw.ordered (hw.lawful hk)

theorem traverse_map (t : AVLTreeNode) : (traverse t).map (fun x => (x.1, x.2.1)) = toList t := by
  induction t <;> simp [AVLTreeNode.traverse, *]

/-- `TraverseAVL` visits every binding once, keys increasing, and the visitor only writes
`dirty`. -/
theorem traverseAVL_spec (hw : WF data) (visit : Nat → Nat → Bool → Bool) :
    WF (traverseAVL data visit).1 ∧ (traverseAVL data visit).1.lookup = data.lookup ∧
      (traverseAVL data visit).2.Pairwise (fun a b => a.1 < b.1) ∧
      (∀ k v, (∃ dirty, (k, v, dirty) ∈ (traverseAVL data visit).2) ↔ data.lookup k = some v) ∧
      (traverseAVL data visit).2.length = (toList data.root).length := by
  have hmap := traverse_map data.root
  refine ⟨⟨hw.comparator, ?_, ?_, ?_⟩, funext fun k => ?_, ?_, fun k v => ?_, ?_⟩ <;>
    simp only [traverseAVL, Ordered, toList_mapDirty, AVLTreeData.lookup]
  · exact hw.ordered
  · exact hw.small
  · exact hw.size
  · have := hw.ordered
    rw [Ordered, ← hmap, List.pairwise_map] at this
    exact this
  · rw [lookup_eq_some_iff_mem hw.ordered, ← hmap]
    simp
  · rw [← hmap, List.length_map]

theorem WF.of_reachable {data : AVLTreeData} (h : Reachable data) : WF data := by
  induction h with
  | create => exact ⟨rfl, List.Pairwise.nil, by simp [createAVL], rfl⟩
  | insert key value _ hk ih => exact (insertAVL_spec ih hk value).1
  | remove key _ hk ih => exact (removeAVL_spec ih hk).1
  | traverse visit _ ih => exact (traverseAVL_spec ih visit).1

end Ops

/-- The allocation index behaves as a finite map on every tree `CreateAVL(MyComparator)` reaches
with keys below `2 ^ 63`: it is a search tree; `InsertAVL` returns the bound value and changes
nothing, or binds and returns `NULL`; `RemoveAVL` unbinds and returns the value or `NULL`;
`FindAVL` returns the value or `NULL`; `TraverseAVL` visits each binding once in increasing key
order; `GetAVLSize` counts the bindings. -/
theorem avl_map_contract {data : AVLTreeData} (hd : Reachable data) {key : Nat}
    (hk : key < 2 ^ 63) (value : Nat) (visit : Nat → Nat → Bool → Bool) :
    Ordered data.root ∧
    (insertAVL data key value).2 = (data.lookup key).getD 0 ∧
    (insertAVL data key value).1.lookup =
      (if (data.lookup key).isSome then data.lookup
        else Function.update data.lookup key (some value)) ∧
    (removeAVL data key).2 = (data.lookup key).getD 0 ∧
    (removeAVL data key).1.lookup = Function.update data.lookup key none ∧
    findAVL data key = (data.lookup key).getD 0 ∧
    (traverseAVL data visit).2.Pairwise (fun a b => a.1 < b.1) ∧
    (∀ k v, (∃ dirty, (k, v, dirty) ∈ (traverseAVL data visit).2) ↔ data.lookup k = some v) ∧
    getAVLSize data = (traverseAVL data visit).2.length := by
  have hw := WF.of_reachable hd
  obtain ⟨-, hi1, hi2⟩ := insertAVL_spec hw hk value
  obtain ⟨-, hr1, hr2⟩ := removeAVL_spec hw hk
  obtain ⟨-, -, ht1, ht2, ht3⟩ := traverseAVL_spec hw visit
  exact ⟨hw.ordered, hi1, hi2, hr1, hr2, findAVL_spec hw hk, ht1, ht2, ht3 ▸ hw.size⟩

/-- Keys `1`, `2` and `3` inserted in increasing order, which rotates the root, and then `2`, the
new root, which has two children, removed. -/
def rotatedTree : AVLTreeData :=
  (removeAVL (insertAVL (insertAVL (insertAVL (createAVL myComparator) 1 4096).1 2 8192).1
    3 12288).1 2).1

/-- The inserts leave a tree of height `2`. On the tree after the removal, `FindAVL` returns the
value of key `3`, which took the removed root's place, and `0` for key `2`, and `RemoveAVL(3)`
returns the value of `3`. -/
theorem avl_map_contract_rotated :
    getAVLHeight (insertAVL (insertAVL (insertAVL (createAVL myComparator) 1 4096).1 2 8192).1
      3 12288).1 = 2 ∧
    Reachable rotatedTree ∧ findAVL rotatedTree 3 = 12288 ∧ findAVL rotatedTree 2 = 0 ∧
      (removeAVL rotatedTree 3).2 = 12288 := by
  have hd : Reachable rotatedTree := .remove 2 (.insert 3 12288 (.insert 2 8192
    (.insert 1 4096 .create (by decide)) (by decide)) (by decide)) (by decide)
  have h3 := avl_map_contract hd (by decide : (3 : Nat) < 2 ^ 63) 0 fun _ _ d => d
  have h2 := avl_map_contract hd (by decide : (2 : Nat) < 2 ^ 63) 0 fun _ _ d => d
  have hl3 : rotatedTree.lookup 3 = some 12288 := by decide
  have hl2 : rotatedTree.lookup 2 = none := by decide
  refine ⟨by decide, hd, ?_, ?_, ?_⟩
  · rw [h3.2.2.2.2.2.1, hl3]; rfl
  · rw [h2.2.2.2.2.2.1, hl2]; rfl
  · rw [h3.2.2.2.1, hl3]; rfl

end SbllMalloc.Avl
