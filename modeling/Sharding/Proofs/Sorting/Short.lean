import Sharding.Proofs.Sorting.Arranged
import Sharding.Sorting.Halves

/-!
# Short lists are arranged

Insertion arranges a list of any length (`arranged_insertion`), and the sort in two halves arranges
a list of any length as well (`arranged_halves`), although it is used for short ones only.

The point of the second is that the two ends of the merge meet.  `Taken` says what the merge has
taken at one end: a part of each list, such that what is taken comes before what is left.  Read from
the back it is the same statement with the ranks negated.  If the two ends did not meet, one list
would have an element taken at both ends and the other an element taken at neither, and of these two
each would have to come before the other (`arranged_mergeHalves`).
-/

namespace Sharding.Sorting

variable {α : Type} {S : α → Prop} {less : α → α → Bool} {rank : α → Int} {xs ys zs : List α}

/-! ## Insertion -/

/-- The list is in reverse, so the new element goes to the front of its class. -/
theorem sameClasses_insertBack (h : Ranks S less rank) {x : α} (hx : S x)
    (hS : ∀ y ∈ ys, S y) : SameClasses rank (x :: ys) (insertBack less x ys) := by
  induction ys with
  | nil => exact .refl _
  | cons y ys ih =>
    unfold insertBack
    split
    · rename_i hlt
      have hne : rank x ≠ rank y := by
        have := (h.less_iff hx (hS y List.mem_cons_self)).1 hlt
        omega
      have hys := ih fun z hz => hS z (List.mem_cons_of_mem _ hz)
      exact (SameClasses.swap hne ys).trans (hys.cons y)
    · exact .refl _

theorem descending_insertBack (h : Ranks S less rank) {x : α} (hx : S x)
    (hS : ∀ y ∈ ys, S y) (hys : ys.Pairwise fun a b => rank b ≤ rank a) :
    (insertBack less x ys).Pairwise fun a b => rank b ≤ rank a := by
  induction ys with
  | nil => exact List.pairwise_singleton _ _
  | cons y ys ih =>
    obtain ⟨hy, hys'⟩ := List.pairwise_cons.1 hys
    have hSy : S y := hS y List.mem_cons_self
    have hSys : ∀ z ∈ ys, S z := fun z hz => hS z (List.mem_cons_of_mem _ hz)
    unfold insertBack
    split
    · rename_i hlt
      have hxy := (h.less_iff hx hSy).1 hlt
      refine List.pairwise_cons.2 ⟨fun z hz => ?_, ih hSys hys'⟩
      rcases List.mem_cons.1 ((sameClasses_insertBack h hx hSys).mem_iff.1 hz) with rfl | hm
      · omega
      · exact hy z hm
    · rename_i hlt
      have hxy : ¬rank x < rank y := fun hr => hlt ((h.less_iff hx hSy).2 hr)
      refine List.pairwise_cons.2 ⟨fun z hz => ?_, hys⟩
      rcases List.mem_cons.1 hz with rfl | hm
      · omega
      · have := hy z hm
        omega

/-- What the loop of the insertion keeps: the list built so far is in reverse. -/
theorem arranged_foldl_insertBack (h : Ranks S less rank) (hxs : ∀ x ∈ xs, S x) :
    ∀ back : List α, (∀ x ∈ back, S x) → (back.Pairwise fun a b => rank b ≤ rank a) →
      Arranged rank (back.reverse ++ xs)
        (xs.foldl (fun back x => insertBack less x back) back).reverse := by
  induction xs with
  | nil =>
    intro back _ hback
    rw [List.append_nil]
    exact ⟨List.pairwise_reverse.2 hback, .refl _⟩
  | cons x xs ih =>
    intro back hS hback
    have hx : S x := hxs x List.mem_cons_self
    have hclasses := sameClasses_insertBack h hx hS
    have hstep := ih (fun y hy => hxs y (List.mem_cons_of_mem _ hy)) (insertBack less x back)
      (hclasses.forall_mem fun y hy => by
        rcases List.mem_cons.1 hy with rfl | hm
        · exact hx
        · exact hS y hm)
      (descending_insertBack h hx hS hback)
    refine Arranged.of_classes ?_ hstep
    have := hclasses.reverse.append (.refl xs)
    simpa using this

/-- Inserting elements into an ascending list arranges all of them. -/
theorem arranged_insertAll (h : Ranks S less rank) (hys : ∀ y ∈ ys, S y) (hxs : ∀ x ∈ xs, S x)
    (hasc : Ascending rank ys) : Arranged rank (ys ++ xs) (insertAll less ys xs) := by
  have := arranged_foldl_insertBack h hxs ys.reverse
    (fun y hy => hys y (List.mem_reverse.1 hy)) (List.pairwise_reverse.2 hasc)
  rwa [List.reverse_reverse] at this

theorem arranged_insertion (h : Ranks S less rank) (hxs : ∀ x ∈ xs, S x) :
    Arranged rank xs (insertion less xs) :=
  arranged_insertAll h (by simp) hxs List.Pairwise.nil

/-! ## Four elements -/

/-- The two elements in order: either they stand as they were, or the second has the lower rank. -/
theorem sortTwo_cases (h : Ranks S less rank) {a b : α} (ha : S a) (hb : S b) :
    (sortTwo less a b = (a, b) ∧ rank a ≤ rank b) ∨
      (sortTwo less a b = (b, a) ∧ rank b < rank a) := by
  unfold sortTwo
  split
  · rename_i hlt
    exact Or.inr ⟨rfl, (h.less_iff hb ha).1 hlt⟩
  · rename_i hlt
    have : ¬rank b < rank a := fun hr => hlt ((h.less_iff hb ha).2 hr)
    exact Or.inl ⟨rfl, by omega⟩

theorem arranged_sortTwo (h : Ranks S less rank) {a b : α} (ha : S a) (hb : S b) :
    Arranged rank [a, b] [(sortTwo less a b).1, (sortTwo less a b).2] := by
  rcases sortTwo_cases h ha hb with ⟨he, hr⟩ | ⟨he, hr⟩ <;> rw [he]
  · exact ⟨by simpa [Ascending] using hr, .refl _⟩
  · exact ⟨by simpa [Ascending] using Int.le_of_lt hr, .swap (by omega) []⟩

/-- Sorting the two inner elements is enough when the outer ones bound them. -/
theorem arranged_of_inner (h : Ranks S less rank) {a b c d : α} (hb : S b) (hc : S c)
    (hclasses : SameClasses rank xs [a, b, c, d]) (hab : rank a ≤ rank b) (hac : rank a ≤ rank c)
    (hbd : rank b ≤ rank d) (hcd : rank c ≤ rank d) :
    Arranged rank xs [a, (sortTwo less b c).1, (sortTwo less b c).2, d] := by
  have hinner := arranged_sortTwo h hb hc
  constructor
  · rcases sortTwo_cases h hb hc with ⟨he, hr⟩ | ⟨he, hr⟩ <;> rw [he] <;>
      simp [Ascending] <;> omega
  · exact hclasses.trans ((hinner.classes.append (.refl [d])).cons a)

theorem arranged_sortFour (h : Ranks S less rank) {w x y z : α} (hw : S w) (hx : S x) (hy : S y)
    (hz : S z) : Arranged rank [w, x, y, z] (sortFour less w x y z) := by
  have hab := arranged_sortTwo h hw hx
  have hcd := arranged_sortTwo h hy hz
  unfold sortFour
  generalize sortTwo less w x = ab at hab ⊢
  generalize sortTwo less y z = cd at hcd ⊢
  obtain ⟨a, b⟩ := ab
  obtain ⟨c, d⟩ := cd
  have hle : rank a ≤ rank b := by simpa [Ascending] using hab.ascending
  have hle' : rank c ≤ rank d := by simpa [Ascending] using hcd.ascending
  have hS : ∀ e ∈ [a, b], S e := hab.classes.forall_mem (by simp [hw, hx])
  have hS' : ∀ e ∈ [c, d], S e := hcd.classes.forall_mem (by simp [hy, hz])
  have ha : S a := hS a (by simp)
  have hb : S b := hS b (by simp)
  have hc : S c := hS' c (by simp)
  have hd : S d := hS' d (by simp)
  have hpairs : SameClasses rank [w, x, y, z] [a, b, c, d] := hab.classes.append hcd.classes
  have hca := h.less_iff hc ha
  have hdb := h.less_iff hd hb
  cases hfirst : less c a with
  | false =>
    have hac : ¬rank c < rank a := fun hr => by simp [hca.2 hr] at hfirst
    cases hlast : less d b with
    | false =>
      have hbd : ¬rank d < rank b := fun hr => by simp [hdb.2 hr] at hlast
      simp only [hfirst, hlast]
      exact arranged_of_inner h hb hc hpairs hle (by omega) (by omega) hle'
    | true =>
      have hdb := hdb.1 hlast
      have hbc : SameClasses rank [b, c, d] [c, b, d] := .swap (by omega) [d]
      have hbd : SameClasses rank [b, d] [d, b] := .swap (by omega) []
      have hmove := hpairs.trans ((hbc.trans (hbd.cons c)).cons a)
      simp only [hfirst, hlast]
      exact arranged_of_inner h hc hd hmove (by omega) (by omega) (by omega) (by omega)
  | true =>
    have hca := hca.1 hfirst
    have hbc : SameClasses rank [b, c, d] [c, b, d] := .swap (by omega) [d]
    have hac : SameClasses rank [a, c, b, d] [c, a, b, d] := .swap (by omega) [b, d]
    have hmove := hpairs.trans ((hbc.cons a).trans hac)
    cases hlast : less d b with
    | false =>
      have hbd : ¬rank d < rank b := fun hr => by simp [hdb.2 hr] at hlast
      simp only [hfirst, hlast]
      exact arranged_of_inner h ha hb hmove (by omega) (by omega) (by omega) (by omega)
    | true =>
      have hdb := hdb.1 hlast
      have hbd : SameClasses rank [b, d] [d, b] := .swap (by omega) []
      simp only [hfirst, hlast]
      exact arranged_of_inner h ha hd (hmove.trans ((hbd.cons a).cons c)) (by omega) (by omega)
        (by omega) (by omega)

theorem arranged_sortHalf (h : Ranks S less rank) (long : Bool) (hxs : ∀ x ∈ xs, S x) :
    Arranged rank xs (sortHalf less long xs) := by
  unfold sortHalf
  split
  · rename_i w x y z rest
    have hfour := arranged_sortFour h (hxs w (by simp)) (hxs x (by simp)) (hxs y (by simp))
      (hxs z (by simp))
    have hS : ∀ e ∈ sortFour less w x y z, S e :=
      hfour.classes.forall_mem fun e he => hxs e (by simp at he ⊢; tauto)
    have hrest : ∀ e ∈ rest, S e := fun e he => hxs e (by simp [he])
    have hall := arranged_insertAll h hS hrest hfour.ascending
    exact hall.of_classes (hfour.classes.append (.refl rest))
  · exact arranged_insertion h hxs

/-! ## A merge from both ends -/

/-- What a merge has taken from the fronts of two lists, the parts `fromX` and `fromY` of them.  Of
equal ranks those of the first list come first. -/
structure Taken (rank : α → Int) (fromX fromY restX restY taken : List α) : Prop where
  arranged : Arranged rank (fromX ++ fromY) taken
  le : ∀ x ∈ fromX, ∀ y ∈ restY, rank x ≤ rank y
  lt : ∀ y ∈ fromY, ∀ x ∈ restX, rank y < rank x

theorem taken_nothing (xs ys : List α) : Taken rank [] [] xs ys [] :=
  ⟨⟨List.Pairwise.nil, .refl _⟩, by simp, by simp⟩

theorem taken_takeFront (h : Ranks S less rank) (n : Nat) (hxs : ∀ x ∈ xs, S x)
    (hys : ∀ y ∈ ys, S y) (hascX : Ascending rank xs) (hascY : Ascending rank ys) :
    ∃ taken fromX fromY restX restY, takeFront less n xs ys = (taken, restX, restY) ∧
      xs = fromX ++ restX ∧ ys = fromY ++ restY ∧ Taken rank fromX fromY restX restY taken := by
  induction n generalizing xs ys with
  | zero => exact ⟨[], [], [], xs, ys, by simp [takeFront], rfl, rfl, taken_nothing _ _⟩
  | succ n ih =>
    cases xs with
    | nil => exact ⟨[], [], [], [], ys, by simp [takeFront], rfl, rfl, taken_nothing _ _⟩
    | cons a xs =>
      cases ys with
      | nil => exact ⟨[], [], [], a :: xs, [], by simp [takeFront], rfl, rfl, taken_nothing _ _⟩
      | cons b ys =>
        have hless := h.less_iff (hys b List.mem_cons_self) (hxs a List.mem_cons_self)
        have ha : ∀ x ∈ a :: xs, rank a ≤ rank x := by
          simpa using fun x hx => hascX.le_of_mem hx
        have hb : ∀ y ∈ b :: ys, rank b ≤ rank y := by
          simpa using fun y hy => hascY.le_of_mem hy
        rw [takeFront]
        split
        · rename_i hlt
          have hba := hless.1 hlt
          obtain ⟨taken, fromX, fromY, restX, restY, he, hX, hY, ht⟩ :=
            ih hxs (fun y hy => hys y (List.mem_cons_of_mem _ hy)) hascX
              (List.pairwise_cons.1 hascY).2
          refine ⟨b :: taken, fromX, b :: fromY, restX, restY, by rw [he], hX, by rw [hY]; rfl, ?_⟩
          have hfromX : ∀ x ∈ fromX, rank b < rank x := by
            intro x hx
            have := ha x (by rw [hX]; exact List.mem_append_left _ hx)
            omega
          refine ⟨ht.arranged.cons_of_lowest hfromX fun y hy => ?_, ht.le, fun y hy x hx => ?_⟩
          · exact hascY.le_of_mem (by rw [hY]; exact List.mem_append_left _ hy)
          · have := ha x (by rw [hX]; exact List.mem_append_right _ hx)
            rcases List.mem_cons.1 hy with rfl | hm
            · omega
            · exact ht.lt y hm x hx
        · rename_i hlt
          have hab : ¬rank b < rank a := fun hr => hlt (hless.2 hr)
          obtain ⟨taken, fromX, fromY, restX, restY, he, hX, hY, ht⟩ :=
            ih (fun x hx => hxs x (List.mem_cons_of_mem _ hx)) hys
              (List.pairwise_cons.1 hascX).2 hascY
          refine ⟨a :: taken, a :: fromX, fromY, restX, restY, by rw [he], by rw [hX]; rfl, hY, ?_⟩
          have hafter : ∀ y ∈ fromX ++ fromY, rank a ≤ rank y := by
            intro y hy
            rcases List.mem_append.1 hy with hm | hm
            · exact hascX.le_of_mem (by rw [hX]; exact List.mem_append_left _ hm)
            · have := hb y (by rw [hY]; exact List.mem_append_left _ hm)
              omega
          have hbefore : ∀ y ∈ ([] : List α), rank a < rank y := fun _ h => by cases h
          refine ⟨ht.arranged.cons_of_lowest hbefore hafter, fun x hx y hy => ?_, ht.lt⟩
          have := hb y (by rw [hY]; exact List.mem_append_right _ hy)
          rcases List.mem_cons.1 hx with rfl | hm
          · omega
          · exact ht.le x hm y hy

/-- As many elements are taken as asked for when neither list is shorter than that. -/
theorem length_takeFront (n : Nat) (hxs : n ≤ xs.length) (hys : n ≤ ys.length) :
    (takeFront less n xs ys).1.length = n := by
  induction n generalizing xs ys with
  | zero => simp [takeFront]
  | succ n ih =>
    cases xs with
    | nil => simp at hxs
    | cons a xs =>
      cases ys with
      | nil => simp at hys
      | cons b ys =>
        simp only [List.length_cons, Nat.add_le_add_iff_right] at hxs hys
        rw [takeFront]
        split
        · have hxs' : n ≤ (a :: xs).length := Nat.le_succ_of_le hxs
          simp [ih hxs' hys]
        · have hys' : n ≤ (b :: ys).length := Nat.le_succ_of_le hys
          simp [ih hxs hys']

/-- Read from the back, the same test compares the negated ranks. -/
theorem Ranks.flip (h : Ranks S less rank) : Ranks S (fun b a => less a b) fun a => -rank a :=
  ⟨fun ha hb => by rw [h.less_iff hb ha]; omega⟩

theorem Ascending.reverse_neg (h : Ascending rank xs) :
    Ascending (fun a => -rank a) xs.reverse :=
  List.pairwise_reverse.2 (h.imp Int.neg_le_neg)

/-- The same statement read from the back: there the second list comes first. -/
theorem taken_takeBack (h : Ranks S less rank) (n : Nat) (hxs : ∀ x ∈ xs, S x)
    (hys : ∀ y ∈ ys, S y) (hascX : Ascending rank xs) (hascY : Ascending rank ys) :
    ∃ taken fromX fromY restX restY,
      takeFront (fun b a => less a b) n ys.reverse xs.reverse = (taken, restY, restX) ∧
      xs.reverse = fromX ++ restX ∧ ys.reverse = fromY ++ restY ∧
      Taken (fun a => -rank a) fromY fromX restY restX taken := by
  obtain ⟨taken, fromY, fromX, restY, restX, he, hY, hX, ht⟩ :=
    taken_takeFront h.flip n
      (fun y hy => hys y (List.mem_reverse.1 hy)) (fun x hx => hxs x (List.mem_reverse.1 hx))
      hascY.reverse_neg hascX.reverse_neg
  exact ⟨taken, fromX, fromY, restX, restY, he, hX, hY, ht⟩

/-! ## The two ends meet -/

/-- Two cuts of one list, the second in front of the first, have an element between them. -/
theorem exists_mem_between {a b c d : List α} (h : a ++ b = c ++ d) (hlen : b.length < d.length) :
    ∃ x, x ∈ a ∧ x ∈ d := by
  rcases List.append_eq_append_iff.1 h with ⟨e, _, hb⟩ | ⟨e, ha, hd⟩
  · rw [hb, List.length_append] at hlen
    omega
  · cases e with
    | nil =>
      rw [List.nil_append] at hd
      rw [hd] at hlen
      omega
    | cons x e => exact ⟨x, by simp [ha], by simp [hd]⟩

/-- Two cuts of one list, the first not behind the second, leave a stretch between them. -/
theorem exists_stretch_between {a b c d : List α} (h : a ++ b = c ++ d)
    (hlen : d.length ≤ b.length) : ∃ e, b = e ++ d ∧ c = a ++ e := by
  have hab := congrArg List.length h
  simp only [List.length_append] at hab
  refine ⟨c.drop a.length, ?_, ?_⟩
  · have := congrArg (List.drop a.length) h
    rwa [List.drop_left, List.drop_append_of_le_length (by omega)] at this
  · have := congrArg (List.take a.length) h
    rw [List.take_left, List.take_append_of_le_length (by omega)] at this
    conv => lhs; rw [← List.take_append_drop a.length c, ← this]

/-- The two halves of what is taken at the front, in the middle and at the back. -/
theorem sameClasses_blocks {lowX midX highX lowY midY highY : List α}
    (hlow : ∀ x ∈ midX ++ highX, ∀ y ∈ lowY, rank x ≠ rank y)
    (hhigh : ∀ x ∈ highX, ∀ y ∈ midY, rank x ≠ rank y) :
    SameClasses rank ((lowX ++ (midX ++ highX)) ++ (lowY ++ (midY ++ highY)))
      ((lowX ++ lowY) ++ ((midX ++ midY) ++ (highX ++ highY))) := by
  have h1 : SameClasses rank (lowX ++ (((midX ++ highX) ++ lowY) ++ (midY ++ highY)))
      (lowX ++ ((lowY ++ (midX ++ highX)) ++ (midY ++ highY))) :=
    (SameClasses.refl lowX).append ((SameClasses.append_comm hlow).append (.refl _))
  have h2 : SameClasses rank ((lowX ++ (lowY ++ midX)) ++ ((highX ++ midY) ++ highY))
      ((lowX ++ (lowY ++ midX)) ++ ((midY ++ highX) ++ highY)) :=
    (SameClasses.refl _).append ((SameClasses.append_comm hhigh).append (.refl _))
  simp only [List.append_assoc] at h1 h2 ⊢
  exact h1.trans h2

/-- An arrangement read from the back, where the ranks are negated. -/
theorem Arranged.reverse_of_neg (h : Arranged (fun a => -rank a) xs ys) :
    Arranged rank xs.reverse ys.reverse where
  ascending := List.pairwise_reverse.2 (h.ascending.imp Int.le_of_neg_le_neg)
  classes := by
    refine SameClasses.reverse fun r => ?_
    have := h.classes (-r)
    simpa only [Int.neg_inj] using this

theorem ascending_of_length_le_one (h : xs.length ≤ 1) : Ascending rank xs := by
  rcases xs with _ | ⟨x, _ | ⟨y, xs⟩⟩
  · exact List.Pairwise.nil
  · exact List.pairwise_singleton _ _
  · simp at h

/-- What is taken at the two ends, with what neither has taken in the middle. -/
theorem arranged_of_ends {lowX midX highX lowY midY highY front back : List α}
    (hascX : Ascending rank (lowX ++ (midX ++ highX)))
    (hascY : Ascending rank (lowY ++ (midY ++ highY)))
    (hfront : Taken rank lowX lowY (midX ++ highX) (midY ++ highY) front)
    (hback : Arranged rank (highX ++ highY) back)
    (hle : ∀ y ∈ highY, ∀ x ∈ lowX ++ midX, rank x ≤ rank y)
    (hlt : ∀ x ∈ highX, ∀ y ∈ lowY ++ midY, rank y < rank x)
    (hmid : midX.length + midY.length ≤ 1) :
    Arranged rank ((lowX ++ (midX ++ highX)) ++ (lowY ++ (midY ++ highY)))
      (front ++ ((midX ++ midY) ++ back)) := by
  have hmid' : Arranged rank (midX ++ midY) (midX ++ midY) :=
    ⟨ascending_of_length_le_one (by simpa using hmid), .refl _⟩
  obtain ⟨-, hX, hlowX⟩ := List.pairwise_append.1 hascX
  obtain ⟨-, hY, hlowY⟩ := List.pairwise_append.1 hascY
  have hmidX := (List.pairwise_append.1 hX).2.2
  have hmidY := (List.pairwise_append.1 hY).2.2
  have hmidhigh := hmid'.append hback fun x hx y hy => by
    rcases List.mem_append.1 hx with hx | hx <;> rcases List.mem_append.1 hy with hy | hy
    · exact hmidX x hx y hy
    · exact hle y hy x (List.mem_append_right _ hx)
    · exact Int.le_of_lt (hlt y hy x (List.mem_append_right _ hx))
    · exact hmidY x hx y hy
  have hall := hfront.arranged.append hmidhigh fun x hx y hy => by
    have hy' : y ∈ midX ++ highX ∨ y ∈ midY ++ highY := by
      simp only [List.mem_append] at hy ⊢
      tauto
    rcases List.mem_append.1 hx with hx | hx <;> rcases hy' with hy | hy
    · exact hlowX x hx y hy
    · exact hfront.le x hx y hy
    · exact Int.le_of_lt (hfront.lt x hx y hy)
    · exact hlowY x hx y hy
  refine hall.of_classes (sameClasses_blocks (fun x hx y hy => ?_) fun x hx y hy => ?_)
  · exact Int.ne_of_gt (hfront.lt y hy x hx)
  · exact Int.ne_of_gt (hlt x hx y (List.mem_append_right _ hy))

theorem arranged_mergeHalves (h : Ranks S less rank) (hxs : ∀ x ∈ xs, S x)
    (hys : ∀ y ∈ ys, S y) (hascX : Ascending rank xs) (hascY : Ascending rank ys)
    (hshort : xs.length ≤ ys.length) (hlong : ys.length ≤ xs.length + 1) :
    ∃ zs, mergeHalves less xs ys = some zs ∧ Arranged rank (xs ++ ys) zs := by
  obtain ⟨front, lowX, lowY, restX, restY, hfront, hX, hY, ht⟩ :=
    taken_takeFront h xs.length hxs hys hascX hascY
  obtain ⟨back, highX, highY, restX', restY', hback, hX', hY', ht'⟩ :=
    taken_takeBack h xs.length hxs hys hascX hascY
  have hn : (takeFront less xs.length xs ys).1.length = xs.length :=
    length_takeFront xs.length (Nat.le_refl _) hshort
  have hn' : (takeFront (fun b a => less a b) xs.length ys.reverse xs.reverse).1.length =
      xs.length :=
    length_takeFront xs.length (by simpa using hshort) (by simp)
  rw [hfront] at hn
  rw [hback] at hn'
  simp only [ht.arranged.perm.length_eq, ht'.arranged.perm.length_eq, List.length_append] at hn hn'
  have hlenX := congrArg List.length hX
  have hlenY := congrArg List.length hY
  have hlenX' := congrArg List.length hX'
  have hlenY' := congrArg List.length hY'
  simp only [List.length_append, List.length_reverse] at hlenX hlenY hlenX' hlenY'
  have hcutX : lowX ++ restX = restX'.reverse ++ highX.reverse := by
    rw [← hX, ← List.reverse_append, ← hX', List.reverse_reverse]
  have hcutY : lowY ++ restY = restY'.reverse ++ highY.reverse := by
    rw [← hY, ← List.reverse_append, ← hY', List.reverse_reverse]
  -- an element taken twice on one side leaves one untaken on the other, and they contradict
  have hmeetX : highX.length ≤ restX.length := by
    by_contra hcon
    obtain ⟨x, hx, hx'⟩ := exists_mem_between hcutX (by simp; omega)
    obtain ⟨y, hy, hy'⟩ := exists_mem_between hcutY.symm (by simp; omega)
    have h1 := ht.le x hx y hy'
    have h2 := ht'.lt x (List.mem_reverse.1 hx') y (List.mem_reverse.1 hy)
    omega
  have hmeetY : highY.length ≤ restY.length := by
    by_contra hcon
    obtain ⟨y, hy, hy'⟩ := exists_mem_between hcutY (by simp; omega)
    obtain ⟨x, hx, hx'⟩ := exists_mem_between hcutX.symm (by simp; omega)
    have h1 := ht.lt y hy x hx'
    have h2 := ht'.le y (List.mem_reverse.1 hy') x (List.mem_reverse.1 hx)
    omega
  obtain ⟨midX, hrestX, hrestX'⟩ := exists_stretch_between hcutX (by simpa using hmeetX)
  obtain ⟨midY, hrestY, hrestY'⟩ := exists_stretch_between hcutY (by simpa using hmeetY)
  have hlenMidX : restX.length = midX.length + highX.length := by simp [hrestX]
  have hlenMidY : restY.length = midY.length + highY.length := by simp [hrestY]
  refine ⟨front ++ (midX ++ midY) ++ back.reverse, ?_, ?_⟩
  · simp only [mergeHalves, hfront, hback]
    rw [if_neg (by simp; omega)]
    congr 4
    · rw [show restX.length + restX'.length - xs.length = midX.length by omega, hrestX,
        List.take_left]
    · rw [show restY.length + restY'.length - ys.length = midY.length by omega, hrestY,
        List.take_left]
  · have hback' : Arranged rank (highX.reverse ++ highY.reverse) back.reverse := by
      simpa using ht'.arranged.reverse_of_neg
    subst hrestX hrestY
    rw [hX] at hascX ⊢
    rw [hY] at hascY ⊢
    have := arranged_of_ends hascX hascY ht hback'
      (fun y hy x hx => ?_) (fun x hx y hy => ?_) (by omega)
    · simpa using this
    · rw [← hrestX', List.mem_reverse] at hx
      exact Int.le_of_neg_le_neg (ht'.le y (List.mem_reverse.1 hy) x hx)
    · rw [← hrestY', List.mem_reverse] at hy
      exact Int.lt_of_neg_lt_neg (ht'.lt x (List.mem_reverse.1 hx) y hy)

/-- The sort in two halves arranges. -/
theorem arranged_halves (h : Ranks S less rank) (hxs : ∀ x ∈ xs, S x) :
    ∃ ys, halves less xs = some ys ∧ Arranged rank xs ys := by
  unfold halves
  generalize decide (8 ≤ xs.length) = long
  have hfirst : Arranged rank (xs.take (xs.length / 2)) (sortHalf less long _) :=
    arranged_sortHalf h long fun x hx => hxs x (List.mem_of_mem_take hx)
  have hsecond : Arranged rank (xs.drop (xs.length / 2)) (sortHalf less long _) :=
    arranged_sortHalf h long fun x hx => hxs x (List.mem_of_mem_drop hx)
  have hlen := hfirst.perm.length_eq
  have hlen' := hsecond.perm.length_eq
  rw [List.length_take] at hlen
  rw [List.length_drop] at hlen'
  obtain ⟨ys, hys, harr⟩ := arranged_mergeHalves h
    (hfirst.classes.forall_mem fun x hx => hxs x (List.mem_of_mem_take hx))
    (hsecond.classes.forall_mem fun x hx => hxs x (List.mem_of_mem_drop hx))
    hfirst.ascending hsecond.ascending (by omega) (by omega)
  refine ⟨ys, hys, harr.of_classes ?_⟩
  have := hfirst.classes.append hsecond.classes
  rwa [List.take_append_drop] at this

end Sharding.Sorting
