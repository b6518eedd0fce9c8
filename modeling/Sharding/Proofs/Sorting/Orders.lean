import Sharding.Proofs.Sorting.Long

/-!
# Comparisons that are orders

Comparisons of rows and datums are orders only as long as the values fit together, so nothing is
known about them on a whole type.  `OrdersOn S cmp` says that `cmp` is one on the set `S`:

* orders combine: first by one comparison and then by another, or through a key;
* an order on the elements of a list ranks them (`ranks_place`), by the number of elements before
  each;
* so the two sorts, of this library and of the standard one, come to the same list
  (`adaptive_eq`).

Where the order is one of numbers, so does insertion (`mergeSort_eq_insertion`), which unlike them
can be evaluated by the kernel.
-/

namespace Sharding.Sorting

variable {α : Type} {S T : α → Prop} {cmp cmp' : α → α → Ordering} {xs : List α} {a b c : α}

/-- On the set `S`, the comparison is a total preorder. -/
structure OrdersOn (S : α → Prop) (cmp : α → α → Ordering) : Prop where
  swap : ∀ {a b}, S a → S b → cmp b a = (cmp a b).swap
  trans : ∀ {a b c}, S a → S b → S c → cmp a b ≠ .gt → cmp b c ≠ .gt → cmp a c ≠ .gt

namespace OrdersOn

theorem mono (h : OrdersOn S cmp) (hT : ∀ a, T a → S a) : OrdersOn T cmp where
  swap ha hb := h.swap (hT _ ha) (hT _ hb)
  trans ha hb hc := h.trans (hT _ ha) (hT _ hb) (hT _ hc)

theorem self_eq (h : OrdersOn S cmp) (ha : S a) : cmp a a = .eq := by
  have hswap := h.swap ha ha
  cases hcmp : cmp a a with
  | eq => rfl
  | lt => simp [hcmp] at hswap
  | gt => simp [hcmp] at hswap

theorem gt_iff (h : OrdersOn S cmp) (ha : S a) (hb : S b) : cmp a b = .gt ↔ cmp b a = .lt := by
  rw [h.swap ha hb, Ordering.swap_eq_lt]

theorem lt_of_lt_of_le (h : OrdersOn S cmp) (ha : S a) (hb : S b) (hc : S c)
    (hab : cmp a b = .lt) (hbc : cmp b c ≠ .gt) : cmp a c = .lt := by
  by_contra hac
  have hca : cmp c a ≠ .gt := fun hgt => hac ((h.gt_iff hc ha).1 hgt)
  exact h.trans hb hc ha hbc hca ((h.gt_iff hb ha).2 hab)

theorem lt_of_le_of_lt (h : OrdersOn S cmp) (ha : S a) (hb : S b) (hc : S c)
    (hab : cmp a b ≠ .gt) (hbc : cmp b c = .lt) : cmp a c = .lt := by
  by_contra hac
  have hca : cmp c a ≠ .gt := fun hgt => hac ((h.gt_iff hc ha).1 hgt)
  exact h.trans hc ha hb hca hab ((h.gt_iff hc hb).2 hbc)

/-- Elements that are equal have the same place among the others. -/
theorem eq_of_eq_of_eq (h : OrdersOn S cmp) (ha : S a) (hb : S b) (hc : S c)
    (hab : cmp a b = .eq) (hbc : cmp b c = .eq) : cmp a c = .eq := by
  have hle : cmp a c ≠ .gt := h.trans ha hb hc (by simp [hab]) (by simp [hbc])
  have hge : cmp c a ≠ .gt :=
    h.trans hc hb ha (by simp [h.swap hb hc, hbc]) (by simp [h.swap ha hb, hab])
  rw [h.swap ha hc] at hge
  cases hac : cmp a c
  · rw [hac] at hge
    exact absurd rfl hge
  · rfl
  · exact absurd hac hle

/-- A comparison of keys orders what it compares. -/
theorem of_key {κ : Type} [Ord κ] [Std.TransOrd κ] (key : α → κ)
    (h : ∀ a b, S a → S b → cmp a b = compare (key a) (key b)) : OrdersOn S cmp where
  swap {a b} ha hb := by
    rw [h b a hb ha, h a b ha hb]
    exact Std.OrientedOrd.eq_swap
  trans {a b c} ha hb hc hab hbc := by
    rw [h a b ha hb] at hab
    rw [h b c hb hc] at hbc
    rw [h a c ha hc]
    exact Ordering.isLE_iff_ne_gt.1 <| Std.TransOrd.isLE_trans
      (Ordering.isLE_iff_ne_gt.2 hab) (Ordering.isLE_iff_ne_gt.2 hbc)

/-- Comparing through a function is an order where the images are ordered. -/
theorem comap {β : Type} {cmp : β → β → Ordering} {T : β → Prop} (h : OrdersOn T cmp)
    (f : α → β) : OrdersOn (fun a => T (f a)) (fun a b => cmp (f a) (f b)) where
  swap ha hb := h.swap ha hb
  trans ha hb hc := h.trans ha hb hc

/-- Elements that the first comparison takes for equal may be told apart by a second. -/
theorem thenBy (h : OrdersOn S cmp) (h' : OrdersOn S cmp') :
    OrdersOn S fun a b => (cmp a b).then (cmp' a b) where
  swap ha hb := by
    rw [h.swap ha hb, h'.swap ha hb, Ordering.swap_then]
  trans {a b c} ha hb hc hab hbc := by
    cases hab1 : cmp a b with
    | gt => simp [hab1] at hab
    | lt =>
      have hbc1 : cmp b c ≠ .gt := fun hgt => by simp [hgt] at hbc
      simp [h.lt_of_lt_of_le ha hb hc hab1 hbc1]
    | eq =>
      cases hbc1 : cmp b c with
      | gt => simp [hbc1] at hbc
      | lt =>
        simp [h.lt_of_le_of_lt ha hb hc (by simp [hab1]) hbc1]
      | eq =>
        simp only [hab1, hbc1, Ordering.eq_then] at hab hbc
        simp only [h.eq_of_eq_of_eq ha hb hc hab1 hbc1, Ordering.eq_then]
        exact h'.trans ha hb hc hab hbc

end OrdersOn

/-! ## Ranks -/

/-- The number of elements of a list that stand before an element. -/
def place (cmp : α → α → Ordering) (xs : List α) (a : α) : Int :=
  xs.countP fun x => cmp x a == .lt

theorem place_le (h : OrdersOn S cmp) (hxs : ∀ x ∈ xs, S x) (ha : S a) (hb : S b)
    (hab : cmp a b ≠ .gt) : place cmp xs a ≤ place cmp xs b := by
  refine Int.ofNat_le.2 (List.countP_mono_left fun x hx hlt => ?_)
  have hlt : cmp x a = .lt := by simpa using hlt
  simpa using h.lt_of_lt_of_le (hxs x hx) ha hb hlt hab

theorem place_lt (h : OrdersOn S cmp) (hxs : ∀ x ∈ xs, S x) (ha : a ∈ xs) (hb : S b)
    (hab : cmp a b = .lt) : place cmp xs a < place cmp xs b := by
  obtain ⟨before, after, rfl⟩ := List.append_of_mem ha
  have hcount : ∀ ys : List α, (∀ y ∈ ys, S y) →
      ys.countP (fun x => cmp x a == .lt) ≤ ys.countP fun x => cmp x b == .lt := fun ys hys =>
    Int.ofNat_le.1 (place_le h hys (hxs a ha) hb (by simp [hab]))
  have hbefore := hcount before fun y hy => hxs y (List.mem_append_left _ hy)
  have hafter := hcount after fun y hy =>
    hxs y (List.mem_append_right _ (List.mem_cons_of_mem _ hy))
  refine Int.ofNat_lt.2 ?_
  -- the element itself stands before `b`, but not before itself
  simp only [List.countP_append, List.countP_cons, h.self_eq (hxs a ha), hab]
  simp only [beq_self_eq_true, if_true, show (Ordering.eq == Ordering.lt) = false from rfl]
  simp only [Bool.false_eq_true, if_false]
  omega

theorem place_le_iff (h : OrdersOn S cmp) (hxs : ∀ x ∈ xs, S x) (ha : a ∈ xs) (hb : b ∈ xs) :
    place cmp xs a ≤ place cmp xs b ↔ cmp a b ≠ .gt := by
  refine ⟨fun hle hgt => ?_, place_le h hxs (hxs a ha) (hxs b hb)⟩
  have hlt := place_lt h hxs hb (hxs a ha) ((h.gt_iff (hxs a ha) (hxs b hb)).1 hgt)
  exact Int.not_le.2 hlt hle

/-- An order ranks the elements of a list. -/
theorem ranks_place (h : OrdersOn S cmp) (hxs : ∀ x ∈ xs, S x) :
    Ranks (· ∈ xs) (fun a b => cmp a b == .lt) (place cmp xs) where
  less_iff {a b} ha hb := by
    rw [beq_iff_eq, ← h.gt_iff (hxs b hb) (hxs a ha), ← Int.not_le, place_le_iff h hxs hb ha]
    exact Decidable.not_not.symm

/-! ## Sorting by an order -/

/-- The sort of the standard library looks at its test on the elements of the list alone. -/
theorem mergeSort_congr {r s : α → α → Bool} (h : ∀ a ∈ xs, ∀ b ∈ xs, r a b = s a b) :
    xs.mergeSort r = xs.mergeSort s := by
  have hmap := List.map_mergeSort (f := id) h
  rwa [List.map_id, List.map_id] at hmap

/-- Insertion sorts by a number as the sort by merging does, and can be evaluated. -/
theorem mergeSort_eq_insertion (rank : α → Nat) (xs : List α) :
    (xs.mergeSort fun a b => rank a ≤ rank b) = insertion (fun a b => rank a < rank b) xs := by
  have hranks : Ranks (fun _ => True) (fun a b => rank a < rank b) fun a => (rank a : Int) :=
    ⟨fun _ _ => by rw [decide_eq_true_eq, Int.ofNat_lt]⟩
  have hmerged : Arranged (fun a => (rank a : Int)) xs
      (xs.mergeSort fun a b => rank a ≤ rank b) := by
    rw [mergeSort_congr (s := fun a b => (rank a : Int) ≤ rank b) fun a _ b _ => by
      rw [Bool.eq_iff_iff, decide_eq_true_eq, decide_eq_true_eq, Int.ofNat_le]]
    exact Arranged.mergeSort xs
  exact hmerged.unique (arranged_insertion hranks fun _ _ => trivial)

theorem arranged_mergeSort (h : OrdersOn S cmp) (hxs : ∀ x ∈ xs, S x) :
    Arranged (place cmp xs) xs (xs.mergeSort fun a b => cmp a b != .gt) := by
  rw [mergeSort_congr (s := fun a b => place cmp xs a ≤ place cmp xs b) fun a ha b hb => by
    rw [Bool.eq_iff_iff, bne_iff_ne, decide_eq_true_eq, place_le_iff h hxs ha hb]]
  exact Arranged.mergeSort xs

/-- The adaptive sort is the stable sort wherever its comparison is an order. -/
theorem adaptive_eq (h : OrdersOn S cmp) (hxs : ∀ x ∈ xs, S x) :
    adaptive (fun a b => cmp a b == .lt) xs = some (xs.mergeSort fun a b => cmp a b != .gt) := by
  obtain ⟨ys, hys, harr⟩ := arranged_adaptive (ranks_place h hxs) fun x hx => hx
  rw [hys, harr.unique (arranged_mergeSort h hxs)]

theorem pairwise_mergeSort (h : OrdersOn S cmp) (hxs : ∀ x ∈ xs, S x) :
    (xs.mergeSort fun a b => cmp a b != .gt).Pairwise fun a b => cmp a b ≠ .gt := by
  have harr := arranged_mergeSort h hxs
  refine harr.ascending.imp_of_mem fun {a b} ha hb hle => ?_
  exact (place_le_iff h hxs (harr.classes.mem_iff.1 ha) (harr.classes.mem_iff.1 hb)).1 hle

end Sharding.Sorting
