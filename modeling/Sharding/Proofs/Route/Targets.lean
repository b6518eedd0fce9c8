import Sharding.Proofs.Route.Lookup

/-!
# Telling targets apart

A statement has one target for each choice of nodes that its tables allow.  As long as the nodes of
a table are distinct, targets that agree in their shard and in the actual table of every logical one
are one target (`ShardingRule.length_targets_le_one`).

* `ShardingRule.targets_cases` says which targets there are: the nodes of a single table, those of
  the first table of a binding group, or the combinations of nodes on each shard.
* The actual tables of a target are tables of nodes of the rule (`ShardingRule.exists_of_targets`).
* In the first two cases a node of the first table has at most one target.  For combinations,
  `exists_combination` gives one for any choice of nodes, so agreement leaves each table a single
  node on the shard.

A statement may name a table twice, in whatever case.  Only the first of its entries decides what is
written for the table, so a choice has to be the same for all entries of one name.
-/

namespace Sharding

/-- The actual table that a target has for a logical one. -/
def RouteTarget.actual? (target : RouteTarget) (logical : String) : Option String :=
  (target.tables.find? fun pair => sameName pair.1 logical).map (·.2)

theorem RouteTarget.actual?_congr {target : RouteTarget} {name table : String}
    (h : sameName name table = true) : target.actual? name = target.actual? table := by
  rw [actual?, actual?]
  simp only [sameName_congr h]

theorem RouteTarget.actual?_first (shard table actual : String) (rest : List (String × String)) :
    (RouteTarget.mk shard ((table, actual) :: rest)).actual? table = some actual := by
  simp [RouteTarget.actual?]

/-- Two targets are on one shard and have the same actual table for each of some tables. -/
def RouteTarget.Agrees (tables : List String) (a b : RouteTarget) : Prop :=
  a.shard = b.shard ∧ ∀ table ∈ tables, a.actual? table = b.actual? table

/-- A list has at most one element if its elements are related pairwise, yet no two of them are. -/
theorem length_le_one_of_pairwise {α : Type} {R : α → α → Prop} {xs : List α}
    (h : xs.Pairwise R) (hnot : ∀ a ∈ xs, ∀ b ∈ xs, ¬ R a b) : xs.length ≤ 1 := by
  match xs with
  | [] => exact Nat.zero_le 1
  | [_] => exact Nat.le_refl 1
  | a :: b :: rest =>
    have hab := (List.pairwise_cons.1 h).1 b List.mem_cons_self
    exact absurd hab
      (hnot a List.mem_cons_self b (List.mem_cons_of_mem _ List.mem_cons_self))

theorem pairwise_of_length_le_one {α : Type} {R : α → α → Prop} {xs : List α}
    (h : xs.length ≤ 1) : xs.Pairwise R := by
  match xs with
  | [] => exact List.Pairwise.nil
  | [x] => exact List.pairwise_singleton R x
  | _ :: _ :: rest =>
    rw [List.length_cons, List.length_cons] at h
    omega

/-- All actual tables are tables of nodes of some entries. -/
def FromNodes (entries : List TableNodes) (tables : List (String × String)) : Prop :=
  ∀ pair ∈ tables, ∃ entry ∈ entries, ∃ node ∈ entry.nodes, pair.2 = node.table

theorem FromNodes.nil (entries : List TableNodes) : FromNodes entries [] :=
  fun _ hpair => absurd hpair List.not_mem_nil

theorem FromNodes.cons {entry : TableNodes} {entries : List TableNodes} {node : DataNode}
    {tables : List (String × String)} (hnode : node ∈ entry.nodes) (h : FromNodes entries tables) :
    FromNodes (entry :: entries) ((entry.table, node.table) :: tables) := by
  intro pair hpair
  rcases List.mem_cons.1 hpair with rfl | hpair
  · exact ⟨entry, List.mem_cons_self, node, hnode, rfl⟩
  · obtain ⟨e, he, hfound⟩ := h pair hpair
    exact ⟨e, List.mem_cons_of_mem _ he, hfound⟩

/-! ## Combinations -/

section Combinations

variable {shard : String} {entries : List TableNodes} {entry : TableNodes}

/-- A combination has a node on the shard for each entry. -/
theorem nodes_of_combination {tables : List (String × String)}
    (h : tables ∈ combinationsOn shard entries) :
    (∀ entry ∈ entries, ∃ node ∈ entry.nodes, node.shard = shard) ∧ FromNodes entries tables := by
  induction entries generalizing tables with
  | nil =>
    cases List.mem_singleton.1 h
    exact ⟨fun _ he => absurd he List.not_mem_nil, FromNodes.nil []⟩
  | cons entry entries ih =>
    obtain ⟨node, hnode, h⟩ := List.mem_flatMap.1 h
    obtain ⟨rest, hrest, rfl⟩ := List.mem_map.1 h
    obtain ⟨hnode, hshard⟩ := List.mem_filter.1 hnode
    obtain ⟨hnodes, hfrom⟩ := ih hrest
    refine ⟨fun e he => ?_, hfrom.cons hnode⟩
    rcases List.mem_cons.1 he with rfl | he
    · exact ⟨node, hnode, of_decide_eq_true hshard⟩
    · exact hnodes e he

/-- Every choice of nodes on a shard is a combination. -/
theorem exists_combination {choose : TableNodes → DataNode}
    (h : ∀ entry ∈ entries, choose entry ∈ entry.nodes ∧ (choose entry).shard = shard) :
    entries.map (fun entry => (entry.table, (choose entry).table)) ∈
      combinationsOn shard entries := by
  induction entries with
  | nil => exact List.mem_singleton_self _
  | cons entry entries ih =>
    obtain ⟨hnode, hshard⟩ := h entry List.mem_cons_self
    refine List.mem_flatMap.2 ⟨choose entry, List.mem_filter.2 ⟨hnode, decide_eq_true hshard⟩, ?_⟩
    exact List.mem_map.2 ⟨_, ih fun e he => h e (List.mem_cons_of_mem _ he), rfl⟩

/-- The actual table that a choice has for the table of an entry. -/
theorem actual?_of_choice {choose : TableNodes → DataNode} {node : DataNode}
    (hentry : entry ∈ entries)
    (hchoose : ∀ e ∈ entries, sameName e.table entry.table = true → choose e = node) :
    (RouteTarget.mk shard (entries.map fun e => (e.table, (choose e).table))).actual?
      entry.table = some node.table := by
  rw [RouteTarget.actual?, List.find?_map, Option.map_map]
  cases hfind : entries.find? ((fun pair : String × String => sameName pair.1 entry.table) ∘
      fun e => (e.table, (choose e).table)) with
  | none => exact absurd (sameName_refl entry.table) (List.find?_eq_none.1 hfind entry hentry)
  | some found =>
    have hsame := List.find?_some hfind
    rw [Option.map_some, Function.comp_apply, hchoose found (List.mem_of_find?_eq_some hfind) hsame]

/-- Where all combinations agree, each table has a single node on the shard, as long as entries of
one name have the same nodes. -/
theorem node_eq_of_agrees
    (hsame : ∀ e ∈ entries, ∀ e' ∈ entries, sameName e.table e'.table = true → e.nodes = e'.nodes)
    (hagrees : ∀ a ∈ combinationsOn shard entries, ∀ b ∈ combinationsOn shard entries,
      (RouteTarget.mk shard a).Agrees (entries.map (·.table)) ⟨shard, b⟩)
    (hne : combinationsOn shard entries ≠ []) (hentry : entry ∈ entries) {x y : DataNode}
    (hx : x ∈ entry.nodes ∧ x.shard = shard) (hy : y ∈ entry.nodes ∧ y.shard = shard) : x = y := by
  obtain ⟨tables, htables⟩ := List.exists_mem_of_ne_nil _ hne
  have hall : ∀ e, ∃ node, e ∈ entries → node ∈ e.nodes ∧ node.shard = shard := by
    intro e
    by_cases he : e ∈ entries
    · obtain ⟨node, hnode⟩ := (nodes_of_combination htables).1 e he
      exact ⟨node, fun _ => hnode⟩
    · exact ⟨x, fun h => absurd h he⟩
  choose other hother using hall
  -- a node for the entries of this name, and any for the others
  let choice := fun (node : DataNode) (e : TableNodes) =>
    if sameName e.table entry.table then node else other e
  have hchoice : ∀ node, node ∈ entry.nodes ∧ node.shard = shard →
      entries.map (fun e => (e.table, (choice node e).table)) ∈ combinationsOn shard entries := by
    intro node hnode
    refine exists_combination fun e he => ?_
    dsimp only [choice]
    split
    · rename_i hname
      rw [hsame e he entry hentry hname]
      exact hnode
    · exact hother e he
  have htable : ∀ node,
      (RouteTarget.mk shard (entries.map fun e => (e.table, (choice node e).table))).actual?
        entry.table = some node.table := fun node =>
    actual?_of_choice hentry fun e _ hname => if_pos hname
  have hactual := (hagrees _ (hchoice x hx) _ (hchoice y hy)).2 entry.table
    (List.mem_map.2 ⟨entry, hentry, rfl⟩)
  rw [htable, htable] at hactual
  exact DataNode.eq_of (hx.2.trans hy.2.symm) (Option.some.inj hactual)

/-- Tables with at most one node on the shard have at most one combination. -/
theorem length_combinationsOn_le_one
    (h : ∀ entry ∈ entries, (entry.nodes.filter (·.shard = shard)).length ≤ 1) :
    (combinationsOn shard entries).length ≤ 1 := by
  induction entries with
  | nil => exact Nat.le_refl 1
  | cons entry entries ih =>
    have ih := ih fun e he => h e (List.mem_cons_of_mem _ he)
    have hentry := h entry List.mem_cons_self
    unfold combinationsOn
    generalize entry.nodes.filter (·.shard = shard) = nodes at hentry ⊢
    match nodes with
    | [] => exact Nat.zero_le 1
    | [node] =>
      rw [List.flatMap_singleton, List.length_map]
      exact ih
    | _ :: _ :: rest =>
      rw [List.length_cons, List.length_cons] at hentry
      omega

/-- Combinations that agree are one combination. -/
theorem length_combinationsOn_of_agrees (hnodup : ∀ e ∈ entries, e.nodes.Nodup)
    (hsame : ∀ e ∈ entries, ∀ e' ∈ entries, sameName e.table e'.table = true → e.nodes = e'.nodes)
    (hagrees : ∀ a ∈ combinationsOn shard entries, ∀ b ∈ combinationsOn shard entries,
      (RouteTarget.mk shard a).Agrees (entries.map (·.table)) ⟨shard, b⟩) :
    (combinationsOn shard entries).length ≤ 1 := by
  by_cases hne : combinationsOn shard entries = []
  · rw [hne]
    exact Nat.zero_le 1
  · refine length_combinationsOn_le_one fun e he => ?_
    refine length_le_one_of_pairwise ((hnodup e he).filter _) fun x hx y hy hxy => hxy ?_
    obtain ⟨hx, hxshard⟩ := List.mem_filter.1 hx
    obtain ⟨hy, hyshard⟩ := List.mem_filter.1 hy
    exact node_eq_of_agrees hsame hagrees hne he ⟨hx, of_decide_eq_true hxshard⟩
      ⟨hy, of_decide_eq_true hyshard⟩

/-- The targets of unrelated tables are the combinations on each shard of the first table. -/
theorem productTargets_eq {first : TableNodes} {others : List TableNodes}
    {targets : List RouteTarget} (h : productTargets first others = .ok targets) :
    targets = (distinct (first.nodes.map (·.shard))).flatMap fun shard =>
      (combinationsOn shard (first :: others)).map (RouteTarget.mk shard) := by
  unfold productTargets at h
  dsimp only at h
  split at h
  · cases h
  · cases h
    rfl

end Combinations

/-! ## Binding groups -/

namespace ShardingRule

variable {r : ShardingRule} {first : String} {shard : String} {position : Nat}
  {all : List DataNode} {others : List TableNodes}

/-- The actual tables of the other tables of a binding group are those of nodes. -/
theorem fromNodes_of_pairedTables {tables : List (String × String)}
    (h : r.pairedTables first shard position others = .ok (some tables)) :
    FromNodes others tables := by
  induction others generalizing tables with
  | nil =>
    cases h
    exact FromNodes.nil []
  | cons other others ih =>
    unfold pairedTables at h
    obtain ⟨nodes, -, h⟩ := exists_of_bind_eq_ok h
    split at h
    · cases h
    · split at h
      · cases h
      · split at h
        · cases h
        · rename_i hmem
          obtain ⟨rest, hrest, h⟩ := exists_of_bind_eq_ok h
          cases rest with
          | none => cases h
          | some rest =>
            cases h
            exact (ih hrest).cons (Decidable.of_not_not hmem)

/-- The target at a node of the first table. -/
theorem exists_of_bindingTarget {node : DataNode} {target : RouteTarget}
    (h : r.bindingTarget first all others node = .ok (some target)) :
    ∃ tables, target = ⟨node.shard, (first, node.table) :: tables⟩ ∧ FromNodes others tables := by
  unfold bindingTarget at h
  split at h
  · cases h
  · obtain ⟨tables, htables, h⟩ := exists_of_bind_eq_ok h
    cases tables with
    | none => cases h
    | some tables =>
      cases h
      exact ⟨tables, rfl, fromNodes_of_pairedTables htables⟩

section Found

variable {nodes : List DataNode} {found : List (Option RouteTarget)}
  (h : nodes.mapM (r.bindingTarget first all others) = .ok found)
include h

/-- Each target of a binding group is that at a node of the first table. -/
theorem exists_of_mem_found {target : RouteTarget} (htarget : target ∈ found.filterMap id) :
    ∃ node ∈ nodes, ∃ tables, target = ⟨node.shard, (first, node.table) :: tables⟩ ∧
      FromNodes others tables := by
  have hall := mapM_eq_ok_iff.1 h
  clear h
  induction hall with
  | nil => cases htarget
  | @cons node found nodes _ hfound _ ih =>
    cases found with
    | none =>
      obtain ⟨other, hother, htables⟩ := ih htarget
      exact ⟨other, List.mem_cons_of_mem _ hother, htables⟩
    | some head =>
      rcases List.mem_cons.1 htarget with rfl | htarget
      · exact ⟨node, List.mem_cons_self, exists_of_bindingTarget hfound⟩
      · obtain ⟨other, hother, htables⟩ := ih htarget
        exact ⟨other, List.mem_cons_of_mem _ hother, htables⟩

/-- Targets at distinct nodes of the first table differ in their shard or in the actual table of
the first table. -/
theorem pairwise_found (hnodes : nodes.Nodup) :
    (found.filterMap id).Pairwise fun a b =>
      ¬ (a.shard = b.shard ∧ a.actual? first = b.actual? first) := by
  have hall := mapM_eq_ok_iff.1 h
  clear h
  induction hall with
  | nil => exact List.Pairwise.nil
  | @cons node target nodes found htarget hrest ih =>
    obtain ⟨hnode, hnodes⟩ := List.nodup_cons.1 hnodes
    cases target with
    | none => exact ih hnodes
    | some target =>
      refine List.pairwise_cons.2 ⟨?_, ih hnodes⟩
      rintro other hother ⟨hshard, hactual⟩
      obtain ⟨tables, rfl, -⟩ := exists_of_bindingTarget htarget
      obtain ⟨node', hnode', tables', rfl, -⟩ :=
        exists_of_mem_found (mapM_eq_ok_iff.2 hrest) hother
      rw [RouteTarget.actual?_first, RouteTarget.actual?_first] at hactual
      refine hnode ?_
      rwa [DataNode.eq_of hshard (Option.some.inj hactual)]

end Found

end ShardingRule

/-! ## Targets -/

namespace ShardingRule

variable {r : ShardingRule} {tables : List String} {conditions : List Condition}
  {params : List Datum} {targets : List RouteTarget}

/-- The tables of a statement with their nodes. -/
theorem entries_of_mapM {entries : List TableNodes}
    (h : (tables.mapM fun table => do
      return TableNodes.mk table (← r.nodesFor table conditions params)) = .ok entries) :
    entries.map (·.table) = tables ∧ ∀ entry ∈ entries,
      r.nodesFor entry.table conditions params = .ok entry.nodes := by
  have hall := mapM_eq_ok_iff.1 h
  clear h
  induction hall with
  | nil => exact ⟨rfl, fun _ he => absurd he List.not_mem_nil⟩
  | cons hentry _ ih =>
    obtain ⟨nodes, hnodes, hentry⟩ := exists_of_bind_eq_ok hentry
    cases hentry
    refine ⟨by rw [List.map_cons, ih.1], fun e he => ?_⟩
    rcases List.mem_cons.1 he with rfl | he
    · exact hnodes
    · exact ih.2 e he

/-- Which targets a statement has. -/
theorem targets_cases (h : r.targets tables conditions params = .ok targets) :
    ∃ first others, (first :: others).map (·.table) = tables ∧
      (∀ entry ∈ first :: others,
        r.nodesFor entry.table conditions params = .ok entry.nodes) ∧
      ((others = [] ∧
          targets = first.nodes.map fun node => ⟨node.shard, [(first.table, node.table)]⟩) ∨
        r.bindingTargets first others = .ok targets ∨
        productTargets first others = .ok targets) := by
  unfold ShardingRule.targets at h
  obtain ⟨entries, hentries, h⟩ := exists_of_bind_eq_ok h
  obtain ⟨htables, hnodes⟩ := entries_of_mapM hentries
  clear hentries
  rcases entries with _ | ⟨first, others⟩
  · cases h
  · refine ⟨first, others, htables, hnodes, ?_⟩
    rcases others with _ | ⟨second, others⟩
    · cases h
      exact .inl ⟨rfl, rfl⟩
    · refine .inr ?_
      dsimp only at h
      split at h
      · exact .inl h
      · exact .inr h

/-- The targets of a binding group are those at the nodes of the first table. -/
theorem exists_of_bindingTargets {first : TableNodes} {others : List TableNodes}
    (h : r.bindingTargets first others = .ok targets) :
    ∃ all found, first.nodes.mapM (r.bindingTarget first.table all others) = .ok found ∧
      targets = found.filterMap id := by
  unfold bindingTargets at h
  obtain ⟨all, -, h⟩ := exists_of_bind_eq_ok h
  obtain ⟨found, hfound, h⟩ := exists_of_bind_eq_ok h
  refine ⟨all, found, hfound, ?_⟩
  split at h
  · cases h
  · cases h
    rfl

/-- The actual tables of a target are those of nodes of the rule. -/
theorem exists_of_targets (h : r.targets tables conditions params = .ok targets) :
    ∀ target ∈ targets, ∀ pair ∈ target.tables, ∃ t ∈ r.tables, ∃ node ∈ t.nodes,
      pair.2 = node.table := by
  obtain ⟨first, others, -, hentries, hcases⟩ := targets_cases h
  have hfrom : ∀ target ∈ targets, FromNodes (first :: others) target.tables := by
    intro target htarget
    rcases hcases with ⟨-, rfl⟩ | hbinding | hproduct
    · obtain ⟨node, hnode, rfl⟩ := List.mem_map.1 htarget
      exact (FromNodes.nil others).cons hnode
    · obtain ⟨all, found, hfound, rfl⟩ := exists_of_bindingTargets hbinding
      obtain ⟨node, hnode, tables, rfl, hfrom⟩ := exists_of_mem_found hfound htarget
      exact hfrom.cons hnode
    · rw [productTargets_eq hproduct] at htarget
      obtain ⟨shard, -, htarget⟩ := List.mem_flatMap.1 htarget
      obtain ⟨tables, htables, rfl⟩ := List.mem_map.1 htarget
      exact (nodes_of_combination htables).2
  intro target htarget pair hpair
  obtain ⟨entry, hentry, node, hnode, hactual⟩ := hfrom target htarget pair hpair
  obtain ⟨t, ht, -, hsub, -⟩ := exists_of_nodesFor (hentries entry hentry)
  exact ⟨t, List.mem_of_find?_eq_some ht, node, hsub.subset hnode, hactual⟩

/-- Targets that agree are one target, if the nodes of every table are distinct. -/
theorem length_targets_le_one (h : r.targets tables conditions params = .ok targets)
    (hnodes : ∀ t ∈ r.tables, t.nodes.Nodup)
    (hagree : ∀ a ∈ targets, ∀ b ∈ targets, a.Agrees tables b) : targets.length ≤ 1 := by
  obtain ⟨first, others, rfl, hentries, hcases⟩ := targets_cases h
  have hnodup : ∀ entry ∈ first :: others, entry.nodes.Nodup := by
    intro entry hentry
    obtain ⟨t, ht, -, hsub, -⟩ := exists_of_nodesFor (hentries entry hentry)
    exact (hnodes t (List.mem_of_find?_eq_some ht)).sublist hsub
  have hfirst : first.table ∈ (first :: others).map (·.table) := List.mem_cons_self
  rcases hcases with ⟨-, rfl⟩ | hbinding | hproduct
  · rw [List.length_map]
    refine length_le_one_of_pairwise (hnodup first List.mem_cons_self) fun x hx y hy hxy => hxy ?_
    have hagree := hagree _ (List.mem_map.2 ⟨x, hx, rfl⟩) _ (List.mem_map.2 ⟨y, hy, rfl⟩)
    have hactual := hagree.2 _ hfirst
    rw [RouteTarget.actual?_first, RouteTarget.actual?_first] at hactual
    exact DataNode.eq_of hagree.1 (Option.some.inj hactual)
  · obtain ⟨all, found, hfound, rfl⟩ := exists_of_bindingTargets hbinding
    refine length_le_one_of_pairwise (pairwise_found hfound (hnodup first List.mem_cons_self)) ?_
    intro a ha b hb hdiffer
    exact hdiffer ⟨(hagree a ha b hb).1, (hagree a ha b hb).2 _ hfirst⟩
  · have heq := productTargets_eq hproduct
    have hsame : ∀ e ∈ first :: others, ∀ e' ∈ first :: others,
        sameName e.table e'.table = true → e.nodes = e'.nodes := by
      intro e he e' he' hname
      have hcongr := nodesFor_congr hname (hentries e he)
      exact Except.ok.inj (hcongr.symm.trans (hentries e' he'))
    -- there is one combination on each shard, so targets differ in their shards
    have hpairwise : targets.Pairwise fun a b => a.shard ≠ b.shard := by
      rw [heq, List.pairwise_flatMap]
      constructor
      · intro shard hshard
        have hmem : ∀ tables ∈ combinationsOn shard (first :: others),
            RouteTarget.mk shard tables ∈ targets := by
          intro tables htables
          rw [heq]
          exact List.mem_flatMap.2 ⟨shard, hshard, List.mem_map.2 ⟨tables, htables, rfl⟩⟩
        have hlength := length_combinationsOn_of_agrees hnodup hsame fun a ha b hb =>
          hagree _ (hmem a ha) _ (hmem b hb)
        exact List.pairwise_map.2 (pairwise_of_length_le_one hlength)
      · refine (nodup_distinct _).imp fun hne a ha b hb => ?_
        obtain ⟨_, -, rfl⟩ := List.mem_map.1 ha
        obtain ⟨_, -, rfl⟩ := List.mem_map.1 hb
        exact hne
    exact length_le_one_of_pairwise hpairwise fun a ha b hb hne => hne (hagree a ha b hb).1

end ShardingRule

end Sharding
