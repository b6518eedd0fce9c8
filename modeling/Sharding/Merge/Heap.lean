/-!
# Heaps

A heap is a binary tree in which no element comes after its children, so its root comes first.
The tree is complete: its levels are filled from left to right, and the path to the place number
`n`, counted from one, is spelled by the binary digits of `n` behind the leading one.

`push` puts an element into the next place and lets it rise while its parent comes after it.  `pop`
takes the root away, moves smaller children up along one path from the root to a leaf, and puts the
element of the last place at the end of that path, from where it rises again.

The order of the elements that come out depends on the shape of the tree only if the comparison is
not transitive.
-/

namespace Sharding

/-- A binary tree. -/
inductive Tree (α : Type) where
  | empty
  | node (root : α) (left right : Tree α)
deriving DecidableEq

namespace Tree

variable {α : Type}

/-- The elements of a tree. -/
def toList : Tree α → List α
  | empty => []
  | node x l r => x :: l.toList ++ r.toList

/-- The number of elements. -/
def size : Tree α → Nat
  | empty => 0
  | node _ l r => l.size + r.size + 1

/-- The element at the root. -/
def root? : Tree α → Option α
  | empty => none
  | node x _ _ => some x

/-- The tree with another root. -/
def withRoot (x : α) : Tree α → Tree α
  | empty => empty
  | node _ l r => node x l r

/-- A node over a subtree into whose root an element has risen or not.  When it has, and the parent
comes after it, the two change places.  Answers whether the element is at the root now.
`rebuild` puts the subtree into its place below a root. -/
def lift (cmp : α → α → Ordering) (parent item : α) (sub : Tree α × Bool)
    (rebuild : α → Tree α → Tree α) : Tree α × Bool :=
  if sub.2 && cmp parent item == .gt then (rebuild item (sub.1.withRoot parent), true)
  else (rebuild parent sub.1, false)

/-- Adds an element at the end of a path and lets it rise. -/
def insertAt (cmp : α → α → Ordering) (item : α) : List Bool → Tree α → Tree α × Bool
  | _, empty => (node item empty empty, true)
  | path, node x l r =>
    if path.headD false then
      lift cmp x item (insertAt cmp item path.tail r) fun x r => node x l r
    else lift cmp x item (insertAt cmp item path.tail l) fun x l => node x l r

/-- Takes away the leaf at the end of a path. -/
def takeLeaf : List Bool → Tree α → Option (α × Tree α)
  | _, empty => none
  | path, node x l r =>
    let right := (takeLeaf path.tail r).map fun (leaf, r) => (leaf, node x l r)
    let left := (takeLeaf path.tail l).map fun (leaf, l) => (leaf, node x l r)
    some ((if path.headD false then right <|> left else left <|> right).getD (x, empty))

/-- Fills the hole at the root of a tree: children move up to a leaf, and `item` rises from there.
Answers whether `item` is at the root now. -/
def refill (cmp : α → α → Ordering) (item : α) : Tree α → Tree α × Bool
  | empty => (empty, false)
  | node _ l r =>
    match l.root?, r.root? with
    | none, none => (node item empty empty, true)
    | some x, none => lift cmp x item (refill cmp item l) fun x l => node x l r
    | none, some y => lift cmp y item (refill cmp item r) fun y r => node y l r
    | some x, some y =>
      if cmp y x = .gt then lift cmp x item (refill cmp item l) fun x l => node x l r
      else lift cmp y item (refill cmp item r) fun y r => node y l r

end Tree

/-- The path to the place number `n` of a complete tree; true is to the right. -/
def heapPath (n : Nat) : List Bool :=
  (Nat.toDigits 2 n).tail.map (· == '1')

/-- A heap: a tree that is filled place by place. -/
structure Heap (α : Type) where
  tree : Tree α
deriving DecidableEq

namespace Heap

variable {α : Type}

/-- The heap without elements. -/
def empty : Heap α := ⟨.empty⟩

/-- The elements of a heap. -/
def toList (h : Heap α) : List α :=
  h.tree.toList

/-- The number of elements. -/
def size (h : Heap α) : Nat :=
  h.tree.size

/-- Adds an element. -/
def push (cmp : α → α → Ordering) (h : Heap α) (item : α) : Heap α :=
  ⟨(h.tree.insertAt cmp item (heapPath (h.size + 1))).1⟩

/-- Takes away the first element. -/
def pop (cmp : α → α → Ordering) (h : Heap α) : Option (α × Heap α) :=
  match h.tree.takeLeaf (heapPath h.size) with
  | none => none
  | some (last, rest) =>
    match rest.root? with
    | none => some (last, ⟨rest⟩)
    | some first => some (first, ⟨(rest.refill cmp last).1⟩)

end Heap

end Sharding
