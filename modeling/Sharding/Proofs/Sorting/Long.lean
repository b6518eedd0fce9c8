import Sharding.Proofs.Sorting.Short
import Sharding.Sorting.Adaptive

/-!
# Lists of any length are arranged

The adaptive sort arranges every list on whose elements its test is an order
(`arranged_adaptive`); in particular it has a result then.

There are three groups.

* Partition.  `arranged_quick` is an induction on the number of divisions that are left.  The bound
  of a part is carried along, because it decides whether the elements equal to the pivot are split
  off.
* Runs.  A run is `Good` when it is in order if it says so.  Finding, joining and settling runs keep
  all runs good and keep the classes of the list they make up (`exists_runs`, `exists_join`,
  `exists_settle`), so the lengths and depths that steer the merges do not matter.
* The methods of `adaptive`, each with the sort it falls back on.
-/

namespace Sharding.Sorting

variable {α : Type} {S : α → Prop} {less : α → α → Bool} {rank : α → Int} {xs ys zs : List α}

/-- A sort that arranges all lists of elements with the property `S`. -/
def Arranges (S : α → Prop) (rank : α → Int) (sort : List α → Option (List α)) : Prop :=
  ∀ xs, (∀ x ∈ xs, S x) → ∃ ys, sort xs = some ys ∧ Arranged rank xs ys

theorem arranges_halves (h : Ranks S less rank) : Arranges S rank (halves less) :=
  fun _ hxs => arranged_halves h hxs

/-! ## Partition -/

theorem mem_of_pivot? {pivot : α} (h : pivot? less xs = some pivot) : pivot ∈ xs :=
  List.mem_toArray.1 (Array.mem_of_getElem? h)

section Pivot

variable {pivot : α} (h : Ranks S less rank) (hp : S pivot) (hxs : ∀ x ∈ xs, S x)

include h hp hxs

/-- Which elements come before the pivot is a matter of their ranks. -/
theorem sameClasses_before :
    SameClasses rank xs (xs.filter (less · pivot) ++ xs.filter (!less · pivot)) := by
  refine SameClasses.filter_append_filter fun x hx y hy hxy => ?_
  rw [Bool.eq_iff_iff, h.less_iff (hxs x hx) hp, h.less_iff (hxs y hy) hp, hxy]

/-- Which elements come after the pivot is a matter of their ranks. -/
theorem sameClasses_notAfter :
    SameClasses rank xs (xs.filter (!less pivot ·) ++ xs.filter (less pivot ·)) := by
  have hclasses : SameClasses rank xs
      (xs.filter (!less pivot ·) ++ xs.filter (! !less pivot ·)) := by
    refine SameClasses.filter_append_filter fun x hx y hy hxy => congrArg _ ?_
    rw [Bool.eq_iff_iff, h.less_iff hp (hxs x hx), h.less_iff hp (hxs y hy), hxy]
  simpa only [Bool.not_not] using hclasses

theorem rank_lt_of_before {x : α} (hx : x ∈ xs.filter (less · pivot)) : rank x < rank pivot := by
  obtain ⟨hm, hlt⟩ := List.mem_filter.1 hx
  exact (h.less_iff (hxs x hm) hp).1 hlt

theorem rank_le_of_notBefore {x : α} (hx : x ∈ xs.filter (!less · pivot)) :
    rank pivot ≤ rank x := by
  obtain ⟨hm, hnot⟩ := List.mem_filter.1 hx
  by_contra hlt
  rw [(h.less_iff (hxs x hm) hp).2 (by omega)] at hnot
  exact Bool.false_ne_true hnot

theorem rank_lt_of_after {x : α} (hx : x ∈ xs.filter (less pivot ·)) : rank pivot < rank x := by
  obtain ⟨hm, hlt⟩ := List.mem_filter.1 hx
  exact (h.less_iff hp (hxs x hm)).1 hlt

theorem rank_le_of_notAfter {x : α} (hx : x ∈ xs.filter (!less pivot ·)) :
    rank x ≤ rank pivot := by
  obtain ⟨hm, hnot⟩ := List.mem_filter.1 hx
  by_contra hlt
  rw [(h.less_iff hp (hxs x hm)).2 (by omega)] at hnot
  exact Bool.false_ne_true hnot

/-- When the elements equal to the pivot are split off, the pivot has the lowest rank. -/
theorem pivot_lowest {bound : Option α} (hbound : ∀ b ∈ bound, S b ∧ ∀ x ∈ xs, rank b ≤ rank x)
    (hstop : ((xs.filter (less · pivot)).isEmpty || bound.any (!less · pivot)) = true) :
    ∀ x ∈ xs, rank pivot ≤ rank x := by
  intro x hx
  rcases Bool.or_eq_true_iff.1 hstop with hempty | hany
  · refine rank_le_of_notBefore h hp hxs (List.mem_filter.2 ⟨hx, ?_⟩)
    have := List.filter_eq_nil_iff.1 (List.isEmpty_iff.1 hempty) x hx
    simpa using this
  · cases bound with
    | none => simp at hany
    | some b =>
      obtain ⟨hb, hlow⟩ := hbound b rfl
      have hnot : ¬rank b < rank pivot := fun hlt => by
        simp [(h.less_iff hb hp).2 hlt] at hany
      have := hlow x hx
      omega

end Pivot

/-- Elements of one rank are in order as they stand. -/
theorem arranged_of_one_rank {r : Int} (h : ∀ x ∈ xs, rank x = r) : Arranged rank xs xs := by
  refine ⟨List.pairwise_of_forall_mem_list fun x hx y hy => ?_, .refl _⟩
  rw [h x hx, h y hy]

theorem arranged_quick (h : Ranks S less rank) {other : List α → Option (List α)}
    (hother : Arranges S rank other) (limit : Nat) (bound : Option α) (hxs : ∀ x ∈ xs, S x)
    (hbound : ∀ b ∈ bound, S b ∧ ∀ x ∈ xs, rank b ≤ rank x) :
    ∃ ys, quick less other limit bound xs = some ys ∧ Arranged rank xs ys := by
  induction limit generalizing bound xs with
  | zero =>
    unfold quick
    split
    · exact arranged_halves h hxs
    · exact hother xs hxs
  | succ limit ih =>
    unfold quick
    split
    · exact arranged_halves h hxs
    · cases hpivot : pivot? less xs with
      | none => exact hother xs hxs
      | some pivot =>
        have hp : S pivot := hxs pivot (mem_of_pivot? hpivot)
        have hS : ∀ p : α → Bool, ∀ x ∈ xs.filter p, S x :=
          fun p x hx => hxs x (List.mem_filter.1 hx).1
        simp only [List.partition_eq_filter_filter, Bool.not_not, Function.comp_def]
        split
        · rename_i hstop
          have hlow := pivot_lowest h hp hxs hbound hstop
          obtain ⟨after, hafter, harr⟩ := ih none (hS (less pivot ·)) (by simp)
          have hequal : Arranged rank (xs.filter (!less pivot ·)) (xs.filter (!less pivot ·)) := by
            refine arranged_of_one_rank (r := rank pivot) fun x hx => ?_
            have := hlow x (List.mem_filter.1 hx).1
            have := rank_le_of_notAfter h hp hxs hx
            omega
          refine ⟨_, by rw [hafter]; rfl, (hequal.append harr fun x hx y hy => ?_).of_classes
            (sameClasses_notAfter h hp hxs)⟩
          have := rank_le_of_notAfter h hp hxs hx
          have := rank_lt_of_after h hp hxs hy
          omega
        · obtain ⟨rest, hrest, harr⟩ := ih (some pivot) (hS (!less · pivot)) fun b hb => by
            obtain rfl : pivot = b := by simpa using hb
            exact ⟨hp, fun x hx => rank_le_of_notBefore h hp hxs hx⟩
          obtain ⟨before, hbefore, harr'⟩ := ih bound (hS (less · pivot)) fun b hb =>
            ⟨(hbound b hb).1, fun x hx => (hbound b hb).2 x (List.mem_filter.1 hx).1⟩
          refine ⟨_, by rw [hrest, hbefore]; rfl, (harr'.append harr fun x hx y hy => ?_).of_classes
            (sameClasses_before h hp hxs)⟩
          have := rank_lt_of_before h hp hxs hx
          have := rank_le_of_notBefore h hp hxs hy
          omega

/-! ## Finding runs -/

/-- A run that is in order if it says so. -/
structure Run.Good (S : α → Prop) (rank : α → Int) (run : Run α) : Prop where
  ascending : run.ordered = true → Ascending rank run.items
  mem : ∀ x ∈ run.items, S x

/-- The relation that goes on from one element to the next holds all along the stretch. -/
theorem pairwise_follow {R : α → α → Prop} {goesOn : α → α → Bool} {x : α}
    (htrans : ∀ {a b c}, R a b → R b c → R a c)
    (hgoesOn : ∀ a ∈ x :: xs, ∀ b ∈ x :: xs, goesOn a b = true → R a b) :
    (x :: xs.take (follow goesOn x xs)).Pairwise R := by
  induction xs generalizing x with
  | nil => simp [follow]
  | cons y ys ih =>
    rw [follow]
    split
    · rename_i hxy
      have hR : R x y := hgoesOn x (by simp) y (by simp) hxy
      have hys := ih (x := y) fun a ha b hb =>
        hgoesOn a (List.mem_cons_of_mem _ ha) b (List.mem_cons_of_mem _ hb)
      rw [List.take_succ_cons]
      refine List.pairwise_cons.2 ⟨fun z hz => ?_, hys⟩
      rcases List.mem_cons.1 hz with rfl | hm
      · exact hR
      · exact htrans hR ((List.pairwise_cons.1 hys).1 z hm)
    · simp

/-- A falling list has one element of each rank, so it may be turned around. -/
theorem sameClasses_reverse (h : xs.Pairwise fun a b => rank b < rank a) :
    SameClasses rank xs xs.reverse := by
  induction xs with
  | nil => exact .refl _
  | cons x xs ih =>
    obtain ⟨hx, hxs⟩ := List.pairwise_cons.1 h
    have hne : ∀ y ∈ xs.reverse, rank y ≠ rank x :=
      fun y hy => Int.ne_of_lt (hx y (List.mem_reverse.1 hy))
    have hmove := (SameClasses.middle hne []).symm
    rw [List.append_nil] at hmove
    rw [List.reverse_cons]
    exact ((ih hxs).cons x).trans hmove

theorem good_naturalRun (h : Ranks S less rank) {x : α} (hxs : ∀ y ∈ x :: xs, S y) :
    (naturalRun less x xs).1.Good S rank ∧
      SameClasses rank (x :: xs.take (naturalRun less x xs).2) (naturalRun less x xs).1.items := by
  unfold naturalRun
  have htake : ∀ n, ∀ y ∈ x :: xs.take n, S y := by
    intro n y hy
    rcases List.mem_cons.1 hy with rfl | hm
    · exact hxs y List.mem_cons_self
    · exact hxs y (List.mem_cons_of_mem _ (List.mem_of_mem_take hm))
  cases hfalls : xs.head?.any (less · x) with
  | true =>
    have hpair : (x :: xs.take (follow (fun a b => less b a == true) x xs)).Pairwise
        fun a b => rank b < rank a :=
      pairwise_follow (fun hab hbc => Int.lt_trans hbc hab) fun a ha b hb hab =>
        (h.less_iff (hxs b hb) (hxs a ha)).1 (by simpa using hab)
    have hclasses := sameClasses_reverse hpair
    refine ⟨⟨fun _ => ?_, hclasses.forall_mem (htake _)⟩, hclasses⟩
    exact List.pairwise_reverse.2 (hpair.imp Int.le_of_lt)
  | false =>
    have hpair : (x :: xs.take (follow (fun a b => less b a == false) x xs)).Pairwise
        fun a b => rank a ≤ rank b := by
      refine pairwise_follow (fun hab hbc => Int.le_trans hab hbc) fun a ha b hb hab => ?_
      by_contra hlt
      rw [(h.less_iff (hxs b hb) (hxs a ha)).2 (by omega)] at hab
      exact absurd hab (by decide)
    exact ⟨⟨fun _ => hpair, htake _⟩, .refl _⟩

section Policy

variable {policy : RunPolicy α}

theorem exists_arrange (hsort : Arranges S rank policy.sort) {run : Run α}
    (hrun : run.Good S rank) :
    ∃ ys, run.arrange policy = some ys ∧ Arranged rank run.items ys := by
  unfold Run.arrange
  split
  · rename_i hord
    exact ⟨run.items, rfl, hrun.ascending hord, .refl _⟩
  · exact hsort run.items hrun.mem

theorem exists_firstRun (h : Ranks S less rank) (hsort : Arranges S rank policy.sort) {x : α}
    (hxs : ∀ y ∈ x :: xs, S y) :
    ∃ run more, firstRun less policy x xs = some (run, more) ∧ run.Good S rank ∧
      SameClasses rank (x :: xs.take more) run.items := by
  have hnatural := good_naturalRun h hxs
  unfold firstRun
  dsimp only
  split
  · exact ⟨_, _, rfl, hnatural⟩
  · have hcut : (⟨x :: xs.take (policy.cutLength - 1), false⟩ : Run α).Good S rank := by
      refine ⟨fun hord => absurd hord Bool.false_ne_true, fun y hy => ?_⟩
      rcases List.mem_cons.1 hy with rfl | hm
      · exact hxs y List.mem_cons_self
      · exact hxs y (List.mem_cons_of_mem _ (List.mem_of_mem_take hm))
    obtain ⟨ys, hys, harr⟩ := exists_arrange hsort hcut
    split
    · refine ⟨⟨ys, true⟩, policy.cutLength - 1, by rw [hys]; rfl, ?_, harr.classes⟩
      exact ⟨fun _ => harr.ascending, harr.classes.forall_mem hcut.mem⟩
    · exact ⟨_, _, rfl, hcut, .refl _⟩

/-- The elements of some runs, one run after the other. -/
def contents (runs : List (Run α)) : List α :=
  runs.flatMap (·.items)

theorem exists_runs (h : Ranks S less rank) (hsort : Arranges S rank policy.sort)
    (hxs : ∀ x ∈ xs, S x) :
    ∃ found, runs less policy xs = some found ∧ (∀ run ∈ found, run.Good S rank) ∧
      SameClasses rank xs (contents found) := by
  induction hn : xs.length using Nat.strong_induction_on generalizing xs with
  | _ n ih =>
    cases xs with
    | nil => exact ⟨[], by rw [runs], by simp, .refl _⟩
    | cons x rest =>
      obtain ⟨run, more, hfirst, hgood, hclasses⟩ := exists_firstRun h hsort hxs
      have hshorter : (rest.drop more).length < n := by
        rw [List.length_drop, ← hn, List.length_cons]
        omega
      obtain ⟨later, hlater, hgoods, hrest⟩ := ih _ hshorter
        (fun y hy => hxs y (List.mem_cons_of_mem _ (List.mem_of_mem_drop hy))) rfl
      refine ⟨run :: later, by rw [runs, hfirst]; simp [hlater], ?_, ?_⟩
      · simpa using ⟨hgood, hgoods⟩
      · have := hclasses.append hrest
        rwa [List.cons_append, List.take_append_drop] at this

/-! ## Merging runs -/

theorem arranged_listMerge (h : Ranks S less rank) (hxs : ∀ x ∈ xs, S x) (hys : ∀ y ∈ ys, S y)
    (hascX : Ascending rank xs) (hascY : Ascending rank ys) :
    Arranged rank (xs ++ ys) (xs.merge ys fun x y => !less y x) := by
  induction xs generalizing ys with
  | nil => simpa using ⟨hascY, .refl _⟩
  | cons x xs ihX =>
    have hasc := (List.pairwise_cons.1 hascX).2
    have hS : ∀ y ∈ xs, S y := fun y hy => hxs y (List.mem_cons_of_mem _ hy)
    induction ys with
    | nil => simpa using ⟨hascX, .refl _⟩
    | cons y ys ihY =>
      have hless := h.less_iff (hys y List.mem_cons_self) (hxs x List.mem_cons_self)
      rw [List.cons_merge_cons]
      split
      · rename_i hle
        have hxy : ¬rank y < rank x := fun hlt => by simp [hless.2 hlt] at hle
        have hbefore : ∀ z ∈ ([] : List α), rank x < rank z := fun _ h => by cases h
        refine (ihX hS hys hasc hascY).cons_of_lowest hbefore fun z hz => ?_
        rcases List.mem_append.1 hz with hz | hz
        · exact hascX.le_of_mem hz
        · rcases List.mem_cons.1 hz with rfl | hm
          · omega
          · have := hascY.le_of_mem hm
            omega
      · rename_i hle
        have hyx := hless.1 (by simpa using hle)
        have htail := ihY (fun z hz => hys z (List.mem_cons_of_mem _ hz))
          (List.pairwise_cons.1 hascY).2
        refine htail.cons_of_lowest (fun z hz => ?_) fun z hz => hascY.le_of_mem hz
        rcases List.mem_cons.1 hz with rfl | hm
        · exact hyx
        · have := hascX.le_of_mem hm
          omega

/-- Merging from either end arranges. -/
theorem arranged_merge (h : Ranks S less rank) (hxs : ∀ x ∈ xs, S x) (hys : ∀ y ∈ ys, S y)
    (hascX : Ascending rank xs) (hascY : Ascending rank ys) :
    Arranged rank (xs ++ ys) (merge less xs ys) := by
  unfold merge
  split
  · exact arranged_listMerge h hxs hys hascX hascY
  · have hback := arranged_listMerge h.flip (fun y hy => hys y (List.mem_reverse.1 hy))
      (fun x hx => hxs x (List.mem_reverse.1 hx)) hascY.reverse_neg hascX.reverse_neg
    simpa using hback.reverse_of_neg

theorem exists_join (h : Ranks S less rank) (hsort : Arranges S rank policy.sort) {a b : Run α}
    (ha : a.Good S rank) (hb : b.Good S rank) :
    ∃ c, a.join less policy b = some c ∧ c.Good S rank ∧
      SameClasses rank (a.items ++ b.items) c.items := by
  obtain ⟨as, has, harrA⟩ := exists_arrange hsort ha
  obtain ⟨bs, hbs, harrB⟩ := exists_arrange hsort hb
  have hmem : ∀ x ∈ a.items ++ b.items, S x := by
    intro x hx
    rcases List.mem_append.1 hx with hm | hm
    · exact ha.mem x hm
    · exact hb.mem x hm
  unfold Run.join
  split
  · have hmerge := (arranged_merge h (harrA.classes.forall_mem ha.mem)
      (harrB.classes.forall_mem hb.mem) harrA.ascending harrB.ascending).of_classes
      (harrA.classes.append harrB.classes)
    refine ⟨⟨merge less as bs, true⟩, by simp [has, hbs], ?_, hmerge.classes⟩
    exact ⟨fun _ => hmerge.ascending, hmerge.classes.forall_mem hmem⟩
  · exact ⟨⟨a.items ++ b.items, false⟩, rfl, ⟨fun hord => absurd hord Bool.false_ne_true, hmem⟩,
      .refl _⟩

/-- The elements of the runs of a stack, whose last run is on top. -/
def stackContents (stack : List (Run α × Nat)) : List α :=
  contents (stack.reverse.map (·.1))

theorem stackContents_cons (run : Run α) (depth : Nat) (stack : List (Run α × Nat)) :
    stackContents ((run, depth) :: stack) = stackContents stack ++ run.items := by
  simp [stackContents, contents]

theorem exists_settle (h : Ranks S less rank) (hsort : Arranges S rank policy.sort) (depth : Nat)
    {stack : List (Run α × Nat)} {run : Run α} (hstack : ∀ e ∈ stack, e.1.Good S rank)
    (hrun : run.Good S rank) :
    ∃ stack' run', settle less policy depth stack run = some (stack', run') ∧
      (∀ e ∈ stack', e.1.Good S rank) ∧ run'.Good S rank ∧
      SameClasses rank (stackContents stack ++ run.items) (stackContents stack' ++ run'.items) ∧
      (depth = 0 → stack' = []) := by
  induction stack generalizing run with
  | nil => exact ⟨[], run, rfl, by simp, hrun, .refl _, fun _ => rfl⟩
  | cons e stack ih =>
    obtain ⟨earlier, d⟩ := e
    rw [settle]
    split
    · obtain ⟨joined, hjoin, hgood, hclasses⟩ :=
        exists_join h hsort (hstack (earlier, d) List.mem_cons_self) hrun
      obtain ⟨stack', run', hsettle, hgoods, hgood', hclasses', hnil⟩ :=
        ih (fun e he => hstack e (List.mem_cons_of_mem _ he)) hgood
      refine ⟨stack', run', by rw [hjoin]; exact hsettle, hgoods, hgood', ?_, hnil⟩
      rw [stackContents_cons, List.append_assoc]
      exact ((SameClasses.refl _).append hclasses).trans hclasses'
    · rename_i hdepth
      exact ⟨(earlier, d) :: stack, run, rfl, hstack, hrun, .refl _,
        fun h0 => absurd (h0 ▸ Nat.zero_le d) hdepth⟩

theorem exists_mergeRuns (h : Ranks S less rank) (hsort : Arranges S rank policy.sort)
    (total start : Nat) {stack : List (Run α × Nat)} {run : Run α} {later : List (Run α)}
    (hstack : ∀ e ∈ stack, e.1.Good S rank) (hrun : run.Good S rank)
    (hlater : ∀ r ∈ later, r.Good S rank) :
    ∃ merged, mergeRuns less policy total stack start run later = some merged ∧
      merged.Good S rank ∧
      SameClasses rank (stackContents stack ++ (run.items ++ contents later)) merged.items := by
  induction later generalizing stack start run with
  | nil =>
    obtain ⟨stack', run', hsettle, -, hgood, hclasses, hnil⟩ := exists_settle h hsort 0 hstack hrun
    rw [hnil rfl] at hclasses
    refine ⟨run', by rw [mergeRuns, hsettle]; rfl, hgood, ?_⟩
    simpa [contents, stackContents] using hclasses
  | cons next later ih =>
    rw [mergeRuns]
    dsimp only
    generalize boundaryDepth total start (start + run.items.length)
      (start + run.items.length + next.items.length) = depth
    obtain ⟨stack', run', hsettle, hgoods, hgood, hclasses, -⟩ :=
      exists_settle h hsort depth hstack hrun
    have hall : ∀ e ∈ (run', depth) :: stack', e.1.Good S rank := fun e he => by
      rcases List.mem_cons.1 he with rfl | hmem
      · exact hgood
      · exact hgoods e hmem
    obtain ⟨merged, hmerged, hgood', hclasses'⟩ := ih (start + run.items.length) hall
      (hlater next List.mem_cons_self) fun r hr => hlater r (List.mem_cons_of_mem _ hr)
    refine ⟨merged, by rw [hsettle]; exact hmerged, hgood', ?_⟩
    rw [stackContents_cons] at hclasses'
    rw [← List.append_assoc]
    exact (hclasses.append (.refl _)).trans hclasses'

/-- Sorting by runs arranges when the sort of single runs does. -/
theorem arranges_byRuns (h : Ranks S less rank) (hsort : Arranges S rank policy.sort) :
    Arranges S rank (byRuns less policy) := by
  intro xs hxs
  obtain ⟨found, hfound, hgoods, hclasses⟩ := exists_runs h hsort hxs
  unfold byRuns
  rw [hfound]
  cases found with
  | nil =>
    exact ⟨[], rfl, List.Pairwise.nil, hclasses⟩
  | cons first later =>
    have hstack : ∀ e ∈ ([] : List (Run α × Nat)), e.1.Good S rank := fun _ h => by cases h
    obtain ⟨merged, hmerged, hgood, hmerge⟩ := exists_mergeRuns h hsort xs.length 0
      hstack (hgoods first List.mem_cons_self) fun r hr => hgoods r (List.mem_cons_of_mem _ hr)
    obtain ⟨ys, hys, harr⟩ := exists_arrange hsort hgood
    refine ⟨ys, by simp [hmerged, hys], harr.of_classes (hclasses.trans ?_)⟩
    simpa [contents, stackContents] using hmerge

end Policy

/-! ## The methods of the adaptive sort -/

theorem arranges_bySortedRuns (h : Ranks S less rank) : Arranges S rank (bySortedRuns less) :=
  fun xs hxs => arranges_byRuns h (arranges_halves h) xs hxs

theorem arranges_byPartition (h : Ranks S less rank) : Arranges S rank (byPartition less) :=
  fun xs hxs => arranged_quick h (arranges_bySortedRuns h) (2 * xs.length.log2) none hxs (by simp)

theorem arranges_byGrowingRuns (h : Ranks S less rank) : Arranges S rank (byGrowingRuns less) :=
  fun xs hxs => arranges_byRuns h (arranges_byPartition h) xs hxs

/-- The adaptive sort finds the stable arrangement of every list on whose elements its test is an
order. -/
theorem arranged_adaptive (h : Ranks S less rank) (hxs : ∀ x ∈ xs, S x) :
    ∃ ys, adaptive less xs = some ys ∧ Arranged rank xs ys := by
  unfold adaptive
  split
  · exact ⟨insertion less xs, rfl, arranged_insertion h hxs⟩
  · split
    · exact arranges_bySortedRuns h xs hxs
    · exact arranges_byGrowingRuns h xs hxs

end Sharding.Sorting
