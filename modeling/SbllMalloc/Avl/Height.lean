import SbllMalloc.Avl.Map

/-!
# Stored heights of the allocation index

`Balance` chooses its rotation from stored heights, so the AVL shape rests on every stored
height being the height of its subtree. `RotateSingleRight` sets the lowered node `e` to
`GetHeight(b) + 1` where its children are `b` and `c` (`right = GetHeight(b)` should read `c`).
A double right rotation after an insertion into the inner grandchild's left side lowers a node
whose right child `c` is taller than `b`, and the stored height comes out one short. Balancing
then reads the wrong height, and a later insertion leaves two sibling subtrees whose heights
differ by two.
-/

namespace SbllMalloc.Avl

open AVLTreeNode

namespace AVLTreeNode

/-- The height of a subtree. -/
def height : AVLTreeNode → Nat
  | nil => 0
  | node _ _ _ l r _ => max (height l) (height r) + 1

/-- Every stored height is the height of its subtree. -/
def HeightsExact : AVLTreeNode → Prop
  | nil => True
  | node _ _ h l r _ => h = max (height l) (height r) + 1 ∧ HeightsExact l ∧ HeightsExact r

/-- The two subtrees of every node differ in height by at most one. -/
def Balanced : AVLTreeNode → Prop
  | nil => True
  | node _ _ _ l r _ => height l ≤ height r + 1 ∧ height r ≤ height l + 1 ∧ Balanced l ∧ Balanced r

instance decHeightsExact : (t : AVLTreeNode) → Decidable (HeightsExact t)
  | nil => isTrue trivial
  | node _ _ h l r _ =>
    have := decHeightsExact l
    have := decHeightsExact r
    inferInstanceAs (Decidable (h = _ ∧ HeightsExact l ∧ HeightsExact r))

instance decBalanced : (t : AVLTreeNode) → Decidable (Balanced t)
  | nil => isTrue trivial
  | node _ _ _ l r _ =>
    have := decBalanced l
    have := decBalanced r
    inferInstanceAs (Decidable (_ ∧ _ ∧ Balanced l ∧ Balanced r))

end AVLTreeNode

/-- `InsertAVL` of each key in turn, with a page as value. -/
def insertKeys (data : AVLTreeData) (keys : List Nat) : AVLTreeData :=
  keys.foldl (fun d k => (insertAVL d k 4096).1) data

theorem Reachable.insertKeys {data : AVLTreeData} (hd : Reachable data) :
    ∀ keys : List Nat, (∀ k ∈ keys, k < 2 ^ 63) → Reachable (insertKeys data keys)
  | [], _ => hd
  | k :: ks, hks =>
    (Reachable.insert k 4096 hd (hks k (by simp))).insertKeys ks fun k' hk' => hks k' (by simp [hk'])

/-- Six insertions end in a double right rotation whose lowered node `50` keeps height `1`
over its child `70`; seven insertions leave node `5` with an empty left subtree and a right
subtree of height two. -/
theorem insertAVL_breaks_avl_shape :
    (∃ data, Reachable data ∧ ¬HeightsExact data.root) ∧
      ∃ data, Reachable data ∧ ¬Balanced data.root :=
  ⟨⟨_, Reachable.create.insertKeys [50, 30, 70, 20, 40, 35] (by decide), by decide⟩,
    _, Reachable.create.insertKeys [1, 2, 5, 6, 7, 4, 3] (by decide), by decide⟩

end SbllMalloc.Avl
