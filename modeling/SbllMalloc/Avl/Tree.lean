import Mathlib

/-!
# The allocation index: `AVL.cpp` as it computes

The allocation index of `SharedHeap.cpp` (`allocRecord`) is the AVL tree of `AVL.cpp`, keyed by
region base address with the region size as value. A node is `AVLTreeNode`: key, value, stored
height, children and the `dirty` flag the merge pass reads (`creator` and `callStack` are
diagnostics and are left out). `NULL` is `nil` for nodes and `0` for values.

Every helper of `AVL.cpp` is a function on `AVLTreeNode`, in the order of the source. A pointer
to a node slot (`AVLTreeNode **`) becomes the subtree passed in and returned; the tree's `size`
counter, which `Insert` and `Remove` bump through `data`, is threaded through. The rotations
dereference children that `Balance` only reaches when they exist (`getBalance` reads heights, and
`nil` has height `0`); on other shapes they return the tree unchanged.

`RotateSingleRight` computes the height of the lowered node from `b` twice
(`left = GetHeight(b); right = GetHeight(b);`); the model keeps that.
-/

namespace SbllMalloc.Avl

/-- `AVLComparator`: negative, zero or positive as the first key is below, equal to or above the
second. -/
abbrev AVLComparator := Nat → Nat → Int

/-- `MyComparator` (`SharedHeap.cpp`): the sign of the 64-bit difference `key1 - key2` read as a
signed `intptr_t`. -/
def myComparator (key1 key2 : Nat) : Int :=
  let diff := (key1 + (2 ^ 64 - key2 % 2 ^ 64)) % 2 ^ 64
  if diff = 0 then 0 else if diff < 2 ^ 63 then 1 else -1

/-- `AVLTreeNode`. -/
inductive AVLTreeNode where
  | nil
  | node (key value height : Nat) (left right : AVLTreeNode) (dirty : Bool)
  deriving DecidableEq, Repr

namespace AVLTreeNode

/-- A fresh node as `Insert` builds it: height `1`, no children, clean. -/
def leaf (key value : Nat) : AVLTreeNode := node key value 1 nil nil false

def left : AVLTreeNode → AVLTreeNode
  | nil => nil
  | node _ _ _ l _ _ => l

def right : AVLTreeNode → AVLTreeNode
  | nil => nil
  | node _ _ _ _ r _ => r

/-- `GetHeight`. -/
def getHeight : AVLTreeNode → Nat
  | nil => 0
  | node _ _ h _ _ _ => h

/-- `GetBalance`: right height minus left height. -/
def getBalance : AVLTreeNode → Int
  | nil => 0
  | node _ _ _ l r _ => (getHeight r : Int) - getHeight l

/-- `RotateSingleRight`: `d` (the left child) becomes the root over `a` and `e`. -/
def rotateSingleRight : AVLTreeNode → AVLTreeNode
  | node ek ev _ (node dk dv _ a b dd) c ed =>
    let eh := max (getHeight b) (getHeight b) + 1
    node dk dv (eh + 1) a (node ek ev eh b c ed) dd
  | t => t

/-- `RotateSingleLeft`: `e` (the right child) becomes the root over `d` and `c`. -/
def rotateSingleLeft : AVLTreeNode → AVLTreeNode
  | node dk dv _ a (node ek ev _ b c ed) dd =>
    let dh := max (getHeight a) (getHeight b) + 1
    node ek ev (dh + 1) (node dk dv dh a b dd) c ed
  | t => t

/-- `RotateDoubleRight`. -/
def rotateDoubleRight : AVLTreeNode → AVLTreeNode
  | nil => nil
  | node k v h l r d => rotateSingleRight (node k v h (rotateSingleLeft l) r d)

/-- `RotateDoubleLeft`. -/
def rotateDoubleLeft : AVLTreeNode → AVLTreeNode
  | nil => nil
  | node k v h l r d => rotateSingleLeft (node k v h l (rotateSingleRight r) d)

/-- The last statement of `Balance`: the height from the children's stored heights. -/
def fixHeight : AVLTreeNode → AVLTreeNode
  | nil => nil
  | node k v _ l r d => node k v (max (getHeight l) (getHeight r) + 1) l r d

/-- `Balance`. -/
def balance : AVLTreeNode → AVLTreeNode
  | nil => nil
  | t@(node ..) =>
    fixHeight <|
      if getBalance t < -1 then
        if 0 < getBalance t.left then rotateDoubleRight t else rotateSingleRight t
      else if 1 < getBalance t then
        if getBalance t.right < 0 then rotateDoubleLeft t else rotateSingleLeft t
      else t

/-- `Insert`: the new subtree, the new `size` and the returned value (`0` for `NULL`). A missing
child is created in the parent's frame, which bumps its height when it now has exactly one child
and then balances it. -/
def insert (cmp : AVLComparator) (key value : Nat) : AVLTreeNode → Nat → AVLTreeNode × Nat × Nat
  | nil, size => (leaf key value, size + 1, 0)
  | node k v h l r d, size =>
    if cmp key k < 0 then
      match l with
      | nil => (balance (node k v (if r = nil then h + 1 else h) (leaf key value) r d), size + 1, 0)
      | node .. =>
        let res := insert cmp key value l size
        (balance (node k v h res.1 r d), res.2)
    else if 0 < cmp key k then
      match r with
      | nil => (balance (node k v (if l = nil then h + 1 else h) l (leaf key value) d), size + 1, 0)
      | node .. =>
        let res := insert cmp key value r size
        (balance (node k v h l res.1 d), res.2)
    else (node k v h l r d, size, v)

/-- `RemoveLeftMost`: the subtree without its left-most node, and that node's key and value. -/
def removeLeftMost : AVLTreeNode → AVLTreeNode × Nat × Nat
  | nil => (nil, 0, 0)
  | node k v _ l r d =>
    match l with
    | nil => (r, k, v)
    | node .. =>
      let res := removeLeftMost l
      let lh := match res.1 with | nil => 0 | node _ _ h _ _ _ => h + 1
      let rh := match r with | nil => 0 | node _ _ h _ _ _ => h + 1
      (balance (node k v (max rh lh) res.1 r d), res.2)

/-- `RemoveRightMost`: the subtree without its right-most node, and that node's key and value. -/
def removeRightMost : AVLTreeNode → AVLTreeNode × Nat × Nat
  | nil => (nil, 0, 0)
  | node k v _ l r d =>
    match r with
    | nil => (l, k, v)
    | node .. =>
      let res := removeRightMost r
      let lh := match l with | nil => 0 | node _ _ h _ _ _ => h + 1
      let rh := match res.1 with | nil => 0 | node _ _ h _ _ _ => h + 1
      (balance (node k v (max rh lh) l res.1 d), res.2)

/-- `Remove`: the new subtree, the new `size` and the removed value (`0` for `NULL`). A found
node takes the key and value of its successor (or predecessor) and keeps its own `dirty`. -/
def remove (cmp : AVLComparator) (key : Nat) : AVLTreeNode → Nat → AVLTreeNode × Nat × Nat
  | nil, size => (nil, size, 0)
  | node k v h l r d, size =>
    if cmp key k < 0 then
      let res := remove cmp key l size
      (balance (node k v h res.1 r d), res.2)
    else if 0 < cmp key k then
      let res := remove cmp key r size
      (balance (node k v h l res.1 d), res.2)
    else
      match r, l with
      | node .., _ =>
        let np := removeLeftMost r
        (balance (node np.2.1 np.2.2 h l np.1 d), size - 1, v)
      | nil, node .. =>
        let np := removeRightMost l
        (balance (node np.2.1 np.2.2 h np.1 nil d), size - 1, v)
      | nil, nil => (nil, size - 1, v)

/-- `FindAVL`'s search loop: the value bound to `key`, or `0`. -/
def find (cmp : AVLComparator) (key : Nat) : AVLTreeNode → Nat
  | nil => 0
  | node k v _ l r _ =>
    if cmp key k < 0 then find cmp key l else if 0 < cmp key k then find cmp key r else v

/-- `FindRangeAVL`'s loop: the node whose half-open interval `[key, key + value)` (64-bit sum)
holds `key`, as met on the search path, or `nil`. -/
def findRange (cmp : AVLComparator) (key : Nat) : AVLTreeNode → AVLTreeNode
  | nil => nil
  | t@(node k v _ l r _) =>
    if cmp key k < 0 then findRange cmp key l
    else if 0 < cmp key k then
      if key < (k + v) % 2 ^ 64 then t else findRange cmp key r
    else t

/-- `Traverse`: the in-order calls of the visitor, each with key, value and `dirty`. -/
def traverse : AVLTreeNode → List (Nat × Nat × Bool)
  | nil => []
  | node k v _ l r d => traverse l ++ (k, v, d) :: traverse r

/-- The visitor's writes through `isDirty`, node by node. -/
def mapDirty (visit : Nat → Nat → Bool → Bool) : AVLTreeNode → AVLTreeNode
  | nil => nil
  | node k v h l r d => node k v h (mapDirty visit l) (mapDirty visit r) (visit k v d)

end AVLTreeNode

open AVLTreeNode

/-- `AVLTreeData`. -/
structure AVLTreeData where
  root : AVLTreeNode
  comparator : AVLComparator
  size : Nat

/-- `CreateAVL`. -/
def createAVL (comparator : AVLComparator) : AVLTreeData := ⟨nil, comparator, 0⟩

/-- `InsertAVL`: inserts, then balances the root once more. -/
def insertAVL (data : AVLTreeData) (key value : Nat) : AVLTreeData × Nat :=
  let res := data.root.insert data.comparator key value data.size
  ({ data with root := balance res.1, size := res.2.1 }, res.2.2)

/-- `RemoveAVL`. -/
def removeAVL (data : AVLTreeData) (key : Nat) : AVLTreeData × Nat :=
  let res := data.root.remove data.comparator key data.size
  ({ data with root := res.1, size := res.2.1 }, res.2.2)

/-- `FindAVL`. -/
def findAVL (data : AVLTreeData) (key : Nat) : Nat := data.root.find data.comparator key

/-- `FindRangeAVL`. -/
def findRangeAVL (data : AVLTreeData) (key : Nat) : AVLTreeNode :=
  data.root.findRange data.comparator key

/-- `TraverseAVL` with a visitor that writes `dirty`: the calls it receives and the tree after. -/
def traverseAVL (data : AVLTreeData) (visit : Nat → Nat → Bool → Bool) :
    AVLTreeData × List (Nat × Nat × Bool) :=
  ({ data with root := data.root.mapDirty visit }, data.root.traverse)

/-- `GetAVLSize`. -/
def getAVLSize (data : AVLTreeData) : Nat := data.size

/-- `GetAVLHeight`. -/
def getAVLHeight (data : AVLTreeData) : Nat := data.root.getHeight

end SbllMalloc.Avl
