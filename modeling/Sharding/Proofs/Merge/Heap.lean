import Sharding.Merge.Heap
import Sharding.Proofs.Sorting.Orders

/-!
# What heaps hold

Two groups of facts, for every path along which an element may be put in or taken out:

* A heap loses and invents nothing: `push` adds its element and `pop` takes one away
  (`perm_push`, `perm_of_pop`).  Nothing is asked of the comparison.
* Where the comparison is an order, no element comes after one below it (`Heaped`), so `pop` takes
  a first element (`le_of_pop`).

An element that is put in rises from the end of its path.  `Placed` is what holds of every subtree
on the way: the element is in it, and the flag beside the subtree tells whether it is at the root.
-/

namespace Sharding

open Sorting

variable {α : Type} {S : α → Prop} {cmp : α → α → Ordering} {x item : α} {es : List α}

namespace Tree

theorem eq_empty_of_root? {t : Tree α} (h : t.root? = none) : t = empty := by
  cases t with
  | empty => rfl
  | node x l r => cases h

theorem mem_of_root? {t : Tree α} (h : t.root? = some x) : x ∈ t.toList := by
  cases t with
  | empty => cases h
  | node y l r =>
    cases h
    exact List.mem_cons_self

theorem length_toList (t : Tree α) : t.toList.length = t.size := by
  induction t with
  | empty => rfl
  | node x l r ihl ihr =>
    rw [toList, size, List.length_append, List.length_cons, ihl, ihr]
    omega

/-- The element `item` has been put among the elements `es`, and the flag tells whether it is at the
root. -/
structure Placed (item : α) (es : List α) (sub : Tree α × Bool) : Prop where
  perm : sub.1.toList.Perm (item :: es)
  root_of_true : sub.2 = true → sub.1.root? = some item
  root_of_false : sub.2 = false → ∃ x ∈ es, sub.1.root? = some x

theorem Placed.of_perm {es' : List α} {sub : Tree α × Bool} (h : Placed item es sub)
    (hperm : es.Perm es') : Placed item es' sub where
  perm := h.perm.trans (hperm.cons item)
  root_of_true := h.root_of_true
  root_of_false hflag := by
    obtain ⟨x, hx, hroot⟩ := h.root_of_false hflag
    exact ⟨x, hperm.mem_iff.1 hx, hroot⟩

/-- A tree and the subtree below its root in which an element rises: to the left or to the right of
another subtree. -/
inductive Beside (other : Tree α) : (α → Tree α → Tree α) → Prop where
  | left : Beside other fun x t => node x t other
  | right : Beside other fun x t => node x other t

theorem Beside.perm {other : Tree α} {rebuild : α → Tree α → Tree α} (h : Beside other rebuild)
    (x : α) (t : Tree α) : (rebuild x t).toList.Perm (x :: t.toList ++ other.toList) := by
  cases h with
  | left => exact .refl _
  | right => exact (List.perm_append_comm).cons x

theorem Beside.root? {other : Tree α} {rebuild : α → Tree α → Tree α} (h : Beside other rebuild)
    (x : α) (t : Tree α) : (rebuild x t).root? = some x := by
  cases h <;> rfl

theorem perm_withRoot {t : Tree α} (h : t.toList.Perm (item :: es)) (hroot : t.root? = some item)
    (x : α) : (t.withRoot x).toList.Perm (x :: es) := by
  cases t with
  | empty => cases hroot
  | node y l r =>
    cases hroot
    exact ((List.perm_cons _).1 h).cons x

/-- An element that has been placed in a subtree is placed in the tree above it. -/
theorem Placed.lift {sub : Tree α × Bool} {other : Tree α} {rebuild : α → Tree α → Tree α}
    (hsub : Placed item es sub) (hrebuild : Beside other rebuild) :
    Placed item (x :: es ++ other.toList) (Tree.lift cmp x item sub rebuild) := by
  unfold Tree.lift
  split
  · rename_i hup
    have hflag : sub.2 = true := (Bool.and_eq_true_iff.1 hup).1
    refine ⟨?_, fun _ => hrebuild.root? _ _, fun h => by cases h⟩
    refine (hrebuild.perm _ _).trans (List.Perm.cons _ ?_)
    exact (perm_withRoot hsub.perm (hsub.root_of_true hflag) x).append_right _
  · refine ⟨?_, fun h => absurd h Bool.false_ne_true,
      fun _ => ⟨x, List.mem_cons_self, hrebuild.root? _ _⟩⟩
    refine (hrebuild.perm _ _).trans ?_
    exact ((hsub.perm.cons x).trans (.swap item x es)).append_right _

/-- Where the comparison is an order, no element comes after one below it. -/
def Heaped (cmp : α → α → Ordering) : Tree α → Prop
  | empty => True
  | node x l r => (∀ y ∈ l.toList ++ r.toList, cmp x y ≠ .gt) ∧ l.Heaped cmp ∧ r.Heaped cmp

theorem Heaped.le {t : Tree α} (h : t.Heaped cmp) (hroot : t.root? = some x)
    (hself : cmp x x ≠ .gt) : ∀ y ∈ t.toList, cmp x y ≠ .gt := by
  cases t with
  | empty => cases hroot
  | node z l r =>
    cases hroot
    intro y hy
    rcases List.mem_cons.1 hy with rfl | hy
    · exact hself
    · exact h.1 y hy

theorem Heaped.withRoot {t : Tree α} (h : t.Heaped cmp) (hperm : t.toList.Perm (item :: es))
    (hroot : t.root? = some item) (hx : ∀ y ∈ es, cmp x y ≠ .gt) : (t.withRoot x).Heaped cmp := by
  cases t with
  | empty => cases hroot
  | node z l r =>
    cases hroot
    have htail := (List.perm_cons _).1 hperm
    exact ⟨fun y hy => hx y (htail.mem_iff.1 hy), h.2⟩

theorem Beside.heaped {other t : Tree α} {rebuild : α → Tree α → Tree α} (h : Beside other rebuild)
    (ht : t.Heaped cmp) (hother : other.Heaped cmp)
    (hx : ∀ y ∈ t.toList ++ other.toList, cmp x y ≠ .gt) : (rebuild x t).Heaped cmp := by
  cases h with
  | left => exact ⟨hx, ht, hother⟩
  | right => exact ⟨fun y hy => hx y ((List.perm_append_comm).mem_iff.1 hy), hother, ht⟩

/-- A rising element keeps the order: it passes exactly the parents that come after it. -/
theorem Placed.heaped_lift (ho : OrdersOn S cmp) {sub : Tree α × Bool} {other : Tree α}
    {rebuild : α → Tree α → Tree α} (hsub : Placed item es sub) (hrebuild : Beside other rebuild)
    (hS : ∀ y ∈ x :: item :: es ++ other.toList, S y)
    (hheaped : sub.1.Heaped cmp) (hother : other.Heaped cmp)
    (hx : ∀ y ∈ es ++ other.toList, cmp x y ≠ .gt) :
    (Tree.lift cmp x item sub rebuild).1.Heaped cmp := by
  have hSx : S x := hS x (by simp)
  have hSitem : S item := hS item (by simp)
  have hSes : ∀ y ∈ es ++ other.toList, S y := fun y hy => hS y (by
    rw [List.cons_append, List.cons_append]
    exact List.mem_cons_of_mem _ (List.mem_cons_of_mem _ hy))
  unfold Tree.lift
  split
  · rename_i hup
    obtain ⟨hflag, hgt⟩ := Bool.and_eq_true_iff.1 hup
    have hlt : cmp item x = .lt := (ho.gt_iff hSx hSitem).1 (by simpa using hgt)
    have hroot := hsub.root_of_true hflag
    have hperm := perm_withRoot hsub.perm hroot x
    refine hrebuild.heaped (hheaped.withRoot hsub.perm hroot fun y hy =>
      hx y (List.mem_append_left _ hy)) hother fun y hy => ?_
    have hy : y ∈ x :: es ++ other.toList := (hperm.append_right _).mem_iff.1 hy
    rcases List.mem_cons.1 hy with rfl | hy
    · simp [hlt]
    · simp [ho.lt_of_lt_of_le hSitem hSx (hSes y hy) hlt (hx y hy)]
  · rename_i hstay
    refine hrebuild.heaped hheaped hother fun y hy => ?_
    have hy : y ∈ item :: es ++ other.toList := (hsub.perm.append_right _).mem_iff.1 hy
    rcases List.mem_cons.1 hy with rfl | hy
    · cases hflag : sub.2 with
      | true =>
        rw [hflag] at hstay
        simpa using hstay
      | false =>
        -- the root of the subtree stands between the parent and the element
        obtain ⟨z, hz, hroot⟩ := hsub.root_of_false hflag
        have hSz : S z := hSes z (List.mem_append_left _ hz)
        have hzy : cmp z y ≠ .gt := hheaped.le hroot (by simp [ho.self_eq hSz]) y
          (hsub.perm.mem_iff.2 List.mem_cons_self)
        exact ho.trans hSx hSz hSitem (hx z (List.mem_append_left _ hz)) hzy
    · exact hx y hy

/-! ## Putting in -/

theorem placed_insertAt (cmp : α → α → Ordering) (item : α) (path : List Bool) (t : Tree α) :
    Placed item t.toList (insertAt cmp item path t) := by
  induction t generalizing path with
  | empty =>
    rw [insertAt]
    exact ⟨.refl _, fun _ => rfl, fun h => by cases h⟩
  | node x l r ihl ihr =>
    rw [insertAt]
    split
    · exact ((ihr path.tail).lift .right).of_perm ((List.perm_append_comm).cons x)
    · exact (ihl path.tail).lift Beside.left

theorem heaped_insertAt (ho : OrdersOn S cmp) (path : List Bool) {t : Tree α}
    (ht : t.Heaped cmp) (hS : ∀ y ∈ t.toList, S y) (hitem : S item) :
    (insertAt cmp item path t).1.Heaped cmp := by
  induction t generalizing path with
  | empty =>
    rw [insertAt]
    exact ⟨fun y hy => absurd hy List.not_mem_nil, trivial, trivial⟩
  | node x l r ihl ihr =>
    have hSx : S x := hS x List.mem_cons_self
    have hSl : ∀ y ∈ l.toList, S y := fun y hy =>
      hS y (List.mem_cons_of_mem _ (List.mem_append_left _ hy))
    have hSr : ∀ y ∈ r.toList, S y := fun y hy =>
      hS y (List.mem_cons_of_mem _ (List.mem_append_right _ hy))
    obtain ⟨hx, hl, hr⟩ := ht
    rw [insertAt]
    split
    · refine (placed_insertAt cmp item path.tail r).heaped_lift ho .right ?_ (ihr _ hr hSr) hl
        fun y hy => hx y ((List.perm_append_comm).mem_iff.1 hy)
      simp only [List.cons_append, List.mem_cons, List.mem_append]
      rintro y (rfl | rfl | hy | hy)
      exacts [hSx, hitem, hSr y hy, hSl y hy]
    · refine (placed_insertAt cmp item path.tail l).heaped_lift ho .left ?_ (ihl _ hl hSl) hr hx
      simp only [List.cons_append, List.mem_cons, List.mem_append]
      rintro y (rfl | rfl | hy | hy)
      exacts [hSx, hitem, hSl y hy, hSr y hy]

/-! ## Taking out -/

theorem takeLeaf_eq_none {path : List Bool} {t : Tree α} :
    takeLeaf path t = none ↔ t = empty := by
  cases t <;> simp [takeLeaf]

/-- The leaf comes from the right or from the left subtree, or it is the root. -/
theorem takeLeaf_node {path : List Bool} {l r rest : Tree α} {leaf : α}
    (h : takeLeaf path (node x l r) = some (leaf, rest)) :
    (∃ r', takeLeaf path.tail r = some (leaf, r') ∧ rest = node x l r') ∨
    (∃ l', takeLeaf path.tail l = some (leaf, l') ∧ rest = node x l' r) ∨
    (l = empty ∧ r = empty ∧ leaf = x ∧ rest = empty) := by
  rw [takeLeaf] at h
  generalize path.headD false = rightFirst at h
  rcases hl : takeLeaf path.tail l with _ | ⟨leafL, l'⟩ <;>
    rcases hr : takeLeaf path.tail r with _ | ⟨leafR, r'⟩ <;> rw [hl, hr] at h
  · cases rightFirst <;> cases h <;>
      exact .inr (.inr ⟨takeLeaf_eq_none.1 hl, takeLeaf_eq_none.1 hr, rfl, rfl⟩)
  · cases rightFirst <;> cases h <;> exact .inl ⟨r', rfl, rfl⟩
  · cases rightFirst <;> cases h <;> exact .inr (.inl ⟨l', rfl, rfl⟩)
  · cases rightFirst <;> cases h
    · exact .inr (.inl ⟨l', rfl, rfl⟩)
    · exact .inl ⟨r', rfl, rfl⟩

theorem perm_of_takeLeaf {path : List Bool} {t rest : Tree α} {leaf : α}
    (h : takeLeaf path t = some (leaf, rest)) : t.toList.Perm (leaf :: rest.toList) := by
  induction t generalizing path rest with
  | empty => simp [takeLeaf] at h
  | node x l r ihl ihr =>
    rcases takeLeaf_node h with ⟨r', hr', rfl⟩ | ⟨l', hl', rfl⟩ | ⟨rfl, rfl, rfl, rfl⟩
    · refine (((ihr hr').append_left l.toList).cons x).trans ?_
      exact (List.perm_middle.cons x).trans (.swap leaf x _)
    · exact (((ihl hl').append_right r.toList).cons x).trans (.swap leaf x _)
    · exact .refl _

/-- Without a leaf, the tree has the same root, or no element at all. -/
theorem root?_of_takeLeaf {path : List Bool} {t rest : Tree α} {leaf : α}
    (h : takeLeaf path t = some (leaf, rest)) :
    rest.root? = t.root? ∨ (rest = empty ∧ t.root? = some leaf) := by
  cases t with
  | empty => simp [takeLeaf] at h
  | node x l r =>
    rcases takeLeaf_node h with ⟨r', hr', rfl⟩ | ⟨l', hl', rfl⟩ | ⟨rfl, rfl, rfl, rfl⟩
    · exact .inl rfl
    · exact .inl rfl
    · exact .inr ⟨rfl, rfl⟩

theorem Heaped.takeLeaf {path : List Bool} {t rest : Tree α} {leaf : α} (ht : t.Heaped cmp)
    (h : takeLeaf path t = some (leaf, rest)) : rest.Heaped cmp := by
  induction t generalizing path rest with
  | empty => simp [Tree.takeLeaf] at h
  | node x l r ihl ihr =>
    obtain ⟨hx, hl, hr⟩ := ht
    rcases takeLeaf_node h with ⟨r', hr', rfl⟩ | ⟨l', hl', rfl⟩ | ⟨rfl, rfl, rfl, rfl⟩
    · refine ⟨fun y hy => hx y ?_, hl, ihr hr hr'⟩
      have hsub := (perm_of_takeLeaf hr').mem_iff (a := y)
      simp only [List.mem_append, List.mem_cons] at hy hsub ⊢
      tauto
    · refine ⟨fun y hy => hx y ?_, ihl hl hl', hr⟩
      have hsub := (perm_of_takeLeaf hl').mem_iff (a := y)
      simp only [List.mem_append, List.mem_cons] at hy hsub ⊢
      tauto
    · trivial

/-- The elements under the root. -/
def underRoot : Tree α → List α
  | empty => []
  | node _ l r => l.toList ++ r.toList

theorem toList_eq_of_root? {t : Tree α} (h : t.root? = some x) : t.toList = x :: t.underRoot := by
  cases t with
  | empty => cases h
  | node y l r =>
    cases h
    rfl

/-- An element fills the hole that the root has left. -/
theorem placed_refill (cmp : α → α → Ordering) (item : α) {t : Tree α} (h : t.root?.isSome) :
    Placed item t.underRoot (refill cmp item t) := by
  induction t with
  | empty => cases h
  | node z l r ihl ihr =>
    rw [refill, underRoot]
    have hleft : ∀ {x}, l.root? = some x →
        Placed item (l.toList ++ r.toList)
          (Tree.lift cmp x item (refill cmp item l) fun x l => node x l r) := fun {x} hl => by
      rw [toList_eq_of_root? hl]
      exact (ihl (by rw [hl]; rfl)).lift .left
    have hright : ∀ {y}, r.root? = some y →
        Placed item (l.toList ++ r.toList)
          (Tree.lift cmp y item (refill cmp item r) fun y r => node y l r) := fun {y} hr => by
      rw [toList_eq_of_root? hr]
      exact ((ihr (by rw [hr]; rfl)).lift .right).of_perm List.perm_append_comm
    cases hl : l.root? with
    | none =>
      cases hr : r.root? with
      | none =>
        rw [eq_empty_of_root? hl, eq_empty_of_root? hr]
        exact ⟨.refl _, fun _ => rfl, fun h => by cases h⟩
      | some y => exact hright hr
    | some x =>
      cases hr : r.root? with
      | none => exact hleft hl
      | some y =>
        dsimp only
        split
        · exact hleft hl
        · exact hright hr

theorem Heaped.underRoot {t : Tree α} (ht : t.Heaped cmp) (hroot : t.root? = some x) :
    ∀ y ∈ t.underRoot, cmp x y ≠ .gt := by
  cases t with
  | empty => cases hroot
  | node z l r =>
    cases hroot
    exact ht.1

theorem mem_toList_of_mem_underRoot {t : Tree α} {y : α} (h : y ∈ t.underRoot) : y ∈ t.toList := by
  cases t with
  | empty => cases h
  | node x l r => exact List.mem_cons_of_mem _ h

/-- The hole moves into a subtree whose root comes before all else, and the element rises there. -/
theorem heaped_lift_refill (ho : OrdersOn S cmp) {sub other : Tree α}
    {rebuild : α → Tree α → Tree α} (hrebuild : Beside other rebuild) (hroot : sub.root? = some x)
    (hsub : sub.Heaped cmp) (hother : other.Heaped cmp) (hSsub : ∀ y ∈ sub.toList, S y)
    (hSother : ∀ y ∈ other.toList, S y) (hitem : S item)
    (hrefill : (refill cmp item sub).1.Heaped cmp) (hx : ∀ y ∈ other.toList, cmp x y ≠ .gt) :
    (Tree.lift cmp x item (refill cmp item sub) rebuild).1.Heaped cmp := by
  have hplaced := placed_refill cmp item (t := sub) (by rw [hroot]; rfl)
  refine hplaced.heaped_lift ho hrebuild ?_ hrefill hother ?_
  · simp only [List.cons_append, List.mem_cons, List.mem_append]
    rintro y (rfl | rfl | hy | hy)
    · exact hSsub y (mem_of_root? hroot)
    · exact hitem
    · exact hSsub y (mem_toList_of_mem_underRoot hy)
    · exact hSother y hy
  · intro y hy
    rcases List.mem_append.1 hy with hy | hy
    · exact hsub.underRoot hroot y hy
    · exact hx y hy

theorem heaped_refill (ho : OrdersOn S cmp) {t : Tree α} (ht : t.Heaped cmp)
    (hS : ∀ y ∈ t.underRoot, S y) (hitem : S item) : (refill cmp item t).1.Heaped cmp := by
  induction t with
  | empty => trivial
  | node z l r ihl ihr =>
    obtain ⟨-, hl, hr⟩ := ht
    have hSl : ∀ y ∈ l.toList, S y := fun y hy => hS y (List.mem_append_left _ hy)
    have hSr : ∀ y ∈ r.toList, S y := fun y hy => hS y (List.mem_append_right _ hy)
    have hleft : ∀ {x}, l.root? = some x → (∀ y ∈ r.toList, cmp x y ≠ .gt) →
        (Tree.lift cmp x item (refill cmp item l) fun x l => node x l r).1.Heaped cmp := by
      intro x hroot
      exact heaped_lift_refill ho .left hroot hl hr hSl hSr hitem
        (ihl hl fun y hy => hSl y (mem_toList_of_mem_underRoot hy))
    have hright : ∀ {y}, r.root? = some y → (∀ x ∈ l.toList, cmp y x ≠ .gt) →
        (Tree.lift cmp y item (refill cmp item r) fun y r => node y l r).1.Heaped cmp := by
      intro y hroot
      exact heaped_lift_refill ho .right hroot hr hl hSr hSl hitem
        (ihr hr fun y hy => hSr y (mem_toList_of_mem_underRoot hy))
    rw [refill]
    cases hlroot : l.root? with
    | none =>
      rw [eq_empty_of_root? hlroot] at hright ⊢
      cases hrroot : r.root? with
      | none => exact ⟨fun y hy => absurd hy List.not_mem_nil, trivial, trivial⟩
      | some y => exact hright hrroot fun x hx => absurd hx List.not_mem_nil
    | some x =>
      have hSx := hSl x (mem_of_root? hlroot)
      cases hrroot : r.root? with
      | none =>
        rw [eq_empty_of_root? hrroot] at hleft ⊢
        exact hleft hlroot fun y hy => absurd hy List.not_mem_nil
      | some y =>
        have hSy := hSr y (mem_of_root? hrroot)
        dsimp only
        split
        · rename_i hgt
          have hxy : cmp x y = .lt := (ho.gt_iff hSy hSx).1 hgt
          refine hleft hlroot fun z hz => ?_
          have hyz := hr.le hrroot (by simp [ho.self_eq hSy]) z hz
          simp [ho.lt_of_lt_of_le hSx hSy (hSr z hz) hxy hyz]
        · rename_i hle
          refine hright hrroot fun z hz => ?_
          exact ho.trans hSy hSx (hSl z hz) hle
            (hl.le hlroot (by simp [ho.self_eq hSx]) z hz)

end Tree

/-! ## Heaps -/

namespace Heap

variable {h h' : Heap α} {first : α}

/-- Putting an element in adds it. -/
theorem perm_push (cmp : α → α → Ordering) (h : Heap α) (item : α) :
    (h.push cmp item).toList.Perm (item :: h.toList) :=
  (Tree.placed_insertAt cmp item _ h.tree).perm

theorem toList_empty : (empty : Heap α).toList = [] := rfl

theorem pop_eq_none (cmp : α → α → Ordering) : h.pop cmp = none ↔ h.toList = [] := by
  unfold pop toList
  cases htree : h.tree with
  | empty => simp [Tree.takeLeaf, Tree.toList]
  | node x l r =>
    cases hleaf : (Tree.node x l r).takeLeaf (heapPath h.size) with
    | none => cases Tree.takeLeaf_eq_none.1 hleaf
    | some found => cases hroot : found.2.root? <;> simp [hroot, Tree.toList]

/-- What is taken out is the root; the last leaf fills the hole. -/
theorem exists_of_pop (hpop : h.pop cmp = some (first, h')) :
    ∃ last rest, h.tree.takeLeaf (heapPath h.size) = some (last, rest) ∧
      ((rest = .empty ∧ last = first ∧ h'.tree = .empty) ∨
        (rest.root? = some first ∧ h'.tree = (rest.refill cmp last).1)) := by
  unfold pop at hpop
  split at hpop
  · cases hpop
  · rename_i last rest hleaf
    refine ⟨last, rest, hleaf, ?_⟩
    cases hroot : rest.root? with
    | none =>
      rw [hroot] at hpop
      cases hpop
      have hempty := Tree.eq_empty_of_root? hroot
      exact .inl ⟨hempty, rfl, hempty⟩
    | some x =>
      rw [hroot] at hpop
      cases hpop
      exact .inr ⟨rfl, rfl⟩

/-- Taking an element out leaves the others. -/
theorem perm_of_pop (hpop : h.pop cmp = some (first, h')) :
    h.toList.Perm (first :: h'.toList) := by
  obtain ⟨last, rest, hleaf, ⟨rfl, rfl, hempty⟩ | ⟨hroot, htree⟩⟩ := exists_of_pop hpop
  · rw [toList, toList, hempty]
    exact Tree.perm_of_takeLeaf hleaf
  · have hplaced := Tree.placed_refill cmp last (t := rest) (by rw [hroot]; rfl)
    have hperm := Tree.perm_of_takeLeaf hleaf
    rw [Tree.toList_eq_of_root? hroot] at hperm
    rw [toList, toList, htree]
    exact hperm.trans ((List.Perm.swap first last _).trans (hplaced.perm.symm.cons first))

theorem length_toList (h : Heap α) : h.toList.length = h.size :=
  h.tree.length_toList

theorem size_push (cmp : α → α → Ordering) (h : Heap α) (item : α) :
    (h.push cmp item).size = h.size + 1 := by
  rw [← length_toList, (perm_push cmp h item).length_eq, List.length_cons, length_toList]

theorem size_of_pop (hpop : h.pop cmp = some (first, h')) : h.size = h'.size + 1 := by
  rw [← h.length_toList, ← h'.length_toList, (perm_of_pop hpop).length_eq, List.length_cons]

/-- No element comes after one below it. -/
def Heaped (cmp : α → α → Ordering) (h : Heap α) : Prop :=
  h.tree.Heaped cmp

theorem heaped_empty : (empty : Heap α).Heaped cmp :=
  trivial

theorem heaped_push (ho : OrdersOn S cmp) (hh : h.Heaped cmp) (hS : ∀ y ∈ h.toList, S y)
    (hitem : S item) : (h.push cmp item).Heaped cmp :=
  Tree.heaped_insertAt ho _ hh hS hitem

theorem heaped_of_pop (ho : OrdersOn S cmp) (hh : h.Heaped cmp) (hS : ∀ y ∈ h.toList, S y)
    (hpop : h.pop cmp = some (first, h')) : h'.Heaped cmp := by
  obtain ⟨last, rest, hleaf, ⟨rfl, rfl, hempty⟩ | ⟨hroot, htree⟩⟩ := exists_of_pop hpop
  · rw [Heaped, hempty]
    trivial
  · have hperm := Tree.perm_of_takeLeaf hleaf
    rw [Tree.toList_eq_of_root? hroot] at hperm
    rw [Heaped, htree]
    refine Tree.heaped_refill ho (hh.takeLeaf hleaf) (fun y hy => hS y (hperm.mem_iff.2 ?_))
      (hS last (hperm.mem_iff.2 List.mem_cons_self))
    exact List.mem_cons_of_mem _ (List.mem_cons_of_mem _ hy)

/-- The element that is taken out comes first. -/
theorem le_of_pop (ho : OrdersOn S cmp) (hh : h.Heaped cmp) (hS : ∀ y ∈ h.toList, S y)
    (hpop : h.pop cmp = some (first, h')) : ∀ y ∈ h.toList, cmp first y ≠ .gt := by
  have hroot : h.tree.root? = some first := by
    obtain ⟨last, rest, hleaf, ⟨rfl, rfl, hempty⟩ | ⟨hroot, htree⟩⟩ := exists_of_pop hpop
    · rcases Tree.root?_of_takeLeaf hleaf with hroot | ⟨-, hroot⟩
      · cases Tree.eq_empty_of_root? hroot.symm ▸ hleaf
      · exact hroot
    · rcases Tree.root?_of_takeLeaf hleaf with hroot' | ⟨rfl, hroot'⟩
      · exact hroot' ▸ hroot
      · cases hroot
  exact Tree.Heaped.le hh hroot (by simp [ho.self_eq (hS first (Tree.mem_of_root? hroot))])

end Heap

end Sharding
