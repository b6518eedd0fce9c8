import Sharding.Proofs.Distinct
import Sharding.Proofs.Route.Surviving

/-!
# Products of unrelated tables

A statement over tables that form no binding group has a target for each choice of one surviving
node per table on a common shard (`ShardingRule.unrelated_targets_by_shard`).

* `mem_choicesOn` says which choices there are on one shard.
* `pairwise_choicesOn` puts them in order: the nodes of an earlier table weigh more.
* `mem_choicesOf` and `pairwise_choicesOf` do the same for all shards of the first table.
* `productTargets_of_choices` makes the targets of them.
-/

namespace Sharding

variable {kept : String → List DataNode} {position : String → DataNode → Nat} {shard first : String}
  {tables others : List String}

/-! ## One shard -/

/-- Every way of taking a node on a shard for each table, the last table varying fastest. -/
def choicesOn (kept : String → List DataNode) (shard : String) :
    List String → List (List DataNode)
  | [] => [[]]
  | t :: rest =>
    ((kept t).filter (·.shard = shard)).flatMap fun node =>
      (choicesOn kept shard rest).map (node :: ·)

theorem mem_choicesOn {nodes : List DataNode} : nodes ∈ choicesOn kept shard tables ↔
    List.Forall₂ (fun t node => node ∈ kept t ∧ node.shard = shard) tables nodes := by
  induction tables generalizing nodes with
  | nil => rw [choicesOn, List.mem_singleton, List.forall₂_nil_left_iff]
  | cons t rest ih =>
    rw [choicesOn, List.mem_flatMap, List.forall₂_cons_left_iff]
    constructor
    · rintro ⟨node, hnode, hnodes⟩
      obtain ⟨hkept, hshard⟩ := List.mem_filter.1 hnode
      obtain ⟨rest, hrest, rfl⟩ := List.mem_map.1 hnodes
      exact ⟨node, rest, ⟨hkept, of_decide_eq_true hshard⟩, ih.1 hrest, rfl⟩
    · rintro ⟨node, rest, ⟨hkept, hshard⟩, hrest, rfl⟩
      exact ⟨node, List.mem_filter.2 ⟨hkept, decide_eq_true hshard⟩,
        List.mem_map.2 ⟨rest, ih.2 hrest, rfl⟩⟩

/-- The choices on a shard come in lexicographic order of their positions, as long as the nodes of
each table come in the order of theirs. -/
theorem pairwise_choicesOn
    (h : ∀ t ∈ tables, (kept t).Pairwise fun a b => position t a < position t b) :
    (choicesOn kept shard tables).Pairwise fun a b =>
      List.zipWith position tables a < List.zipWith position tables b := by
  induction tables with
  | nil => exact List.pairwise_singleton _ _
  | cons t rest ih =>
    have hrest := ih fun t ht => h t (List.mem_cons_of_mem _ ht)
    refine List.pairwise_flatMap.2 ⟨fun node _ => List.pairwise_map.2 (hrest.imp ?_), ?_⟩
    · exact fun hlt => List.cons_lt_cons_iff.2 (.inr ⟨rfl, hlt⟩)
    · refine ((h t List.mem_cons_self).filter _).imp fun hlt x hx y hy => ?_
      obtain ⟨xs, -, rfl⟩ := List.mem_map.1 hx
      obtain ⟨ys, -, rfl⟩ := List.mem_map.1 hy
      exact List.cons_lt_cons_iff.2 (.inl hlt)

/-- The combinations of actual tables on a shard are the choices there. -/
theorem combinationsOn_eq :
    combinationsOn shard (tables.map fun t => ⟨t, kept t⟩) =
      (choicesOn kept shard tables).map (List.zipWith (fun t node => (t, node.table)) tables) := by
  induction tables with
  | nil => rfl
  | cons t rest ih =>
    rw [List.map_cons, combinationsOn, choicesOn, ih, List.map_flatMap]
    simp only [List.map_map]
    rfl

/-! ## All shards -/

/-- The choices on all shards of the first table. -/
def choicesOf (kept : String → List DataNode) (first : String) (tables : List String) :
    List Choice :=
  (distinct ((kept first).map (·.shard))).flatMap fun shard =>
    (choicesOn kept shard tables).map (Choice.mk shard)

theorem mem_choicesOf {c : Choice} : c ∈ choicesOf kept first (first :: others) ↔
    c.Of (fun t node => node ∈ kept t) (first :: others) := by
  rw [choicesOf, List.mem_flatMap]
  constructor
  · rintro ⟨shard, -, hc⟩
    obtain ⟨nodes, hnodes, rfl⟩ := List.mem_map.1 hc
    exact mem_choicesOn.1 hnodes
  · intro hc
    obtain ⟨node, rest, ⟨hnode, hshard⟩, -, -⟩ := List.forall₂_cons_left_iff.1 hc
    refine ⟨c.shard, mem_distinct.2 (List.mem_map.2 ⟨node, hnode, hshard⟩), ?_⟩
    exact List.mem_map.2 ⟨c.nodes, mem_choicesOn.2 hc, rfl⟩

/-- A choice comes before another one: its shard comes first among some shards, or they are on one
shard and its nodes come first, those of an earlier table weighing more. -/
def Choice.Before (shards : List String) (position : String → DataNode → Nat)
    (tables : List String) (c c' : Choice) : Prop :=
  shards.idxOf c.shard < shards.idxOf c'.shard ∨
    c.shard = c'.shard ∧
      List.zipWith position tables c.nodes < List.zipWith position tables c'.nodes

theorem pairwise_choicesOf (first : String)
    (h : ∀ t ∈ tables, (kept t).Pairwise fun a b => position t a < position t b) :
    (choicesOf kept first tables).Pairwise
      (Choice.Before ((kept first).map (·.shard)) position tables) := by
  refine List.pairwise_flatMap.2 ⟨fun shard _ => List.pairwise_map.2 ?_, ?_⟩
  · exact (pairwise_choicesOn h).imp fun hlt => .inr ⟨rfl, hlt⟩
  · refine (pairwise_distinct _).imp fun hlt x hx y hy => ?_
    obtain ⟨xs, -, rfl⟩ := List.mem_map.1 hx
    obtain ⟨ys, -, rfl⟩ := List.mem_map.1 hy
    exact .inl hlt

theorem Choice.Before.ne {shards : List String} {c c' : Choice}
    (h : c.Before shards position tables c') : c ≠ c' := by
  rintro rfl
  rcases h with hlt | ⟨-, hlt⟩
  · exact Nat.lt_irrefl _ hlt
  · exact List.lt_irrefl _ hlt

theorem productTargets_of_choices :
    productTargets ⟨first, kept first⟩ (others.map fun t => ⟨t, kept t⟩) =
      if choicesOf kept first (first :: others) = [] then .error (.noSharedShard (first :: others))
      else .ok ((choicesOf kept first (first :: others)).map (·.target (first :: others))) := by
  have hentries : TableNodes.mk first (kept first) :: others.map (fun t => ⟨t, kept t⟩) =
      (first :: others).map fun t => ⟨t, kept t⟩ := rfl
  have htargets : ((distinct ((kept first).map (·.shard))).flatMap fun shard =>
      (combinationsOn shard ((first :: others).map fun t => ⟨t, kept t⟩)).map
        (RouteTarget.mk shard)) =
      (choicesOf kept first (first :: others)).map (·.target (first :: others)) := by
    rw [choicesOf, List.map_flatMap]
    simp only [combinationsOn_eq, List.map_map]
    rfl
  have hnames : ((first :: others).map fun t => TableNodes.mk t (kept t)).map (·.table) =
      first :: others := by
    rw [List.map_map]
    exact List.map_id _
  rw [productTargets, hentries, hnames]
  dsimp only
  rw [htargets]
  cases choicesOf kept first (first :: others) with
  | nil => rfl
  | cons c cs => rfl

namespace ShardingRule

variable {r : ShardingRule} {conditions : List Condition} {params : List Datum}
  {nodes : String → List DataNode}

/-- Some table that keeps no node is an error. -/
theorem entries_of_none (hnodes : ∀ t ∈ tables, r.dataNodes t = .ok (nodes t))
    (hresolvable : ∀ t ∈ tables, r.Resolvable conditions params t)
    (hnone : ∃ t ∈ tables, r.survivors conditions params t = []) :
    ∃ cause, (tables.mapM fun table => do
      return TableNodes.mk table (← r.nodesFor table conditions params)) = .error cause := by
  cases hentries : (tables.mapM fun table => do
      return TableNodes.mk table (← r.nodesFor table conditions params)) with
  | error cause => exact ⟨cause, rfl⟩
  | ok entries =>
    obtain ⟨t, ht, hnone⟩ := hnone
    obtain ⟨column, hfor⟩ := nodesFor_of_none (hnodes t ht) (hresolvable t ht) hnone
    obtain ⟨entry, hentry⟩ := exists_of_mapM hentries ht
    rw [hfor] at hentry
    cases hentry

/-- Surviving nodes come in the order of the configuration. -/
theorem pairwise_survivors (conditions : List Condition) (params : List Datum) {t : String}
    {all : List DataNode} (hall : r.dataNodes t = .ok all) (hnodup : all.Nodup) :
    (r.survivors conditions params t).Pairwise fun a b => all.idxOf a < all.idxOf b := by
  rw [survivors_eq hall]
  exact (pairwise_idxOf hnodup).filter _

/-- Where every table keeps a node, the choices decide. -/
theorem targets_of_unrelated (hothers : others ≠ [])
    (hunrelated : r.isBinding (first :: others) = false)
    (hnodes : ∀ t ∈ first :: others, r.dataNodes t = .ok (nodes t))
    (hresolvable : ∀ t ∈ first :: others, r.Resolvable conditions params t)
    (hkept : ∀ t ∈ first :: others, r.survivors conditions params t ≠ []) :
    r.targets (first :: others) conditions params =
      if choicesOf (r.survivors conditions params) first (first :: others) = [] then
        .error (.noSharedShard (first :: others))
      else .ok ((choicesOf (r.survivors conditions params) first (first :: others)).map
        (·.target (first :: others))) := by
  rw [targets_of_survivors hothers fun t ht =>
    nodesFor_of_survivors (hnodes t ht) (hresolvable t ht) (hkept t ht)]
  rw [hunrelated, if_neg Bool.false_ne_true]
  exact productTargets_of_choices

/-- The targets of tables that form no binding group are the choices of one surviving node per table
on a common shard, each once.  The shards come in the order in which they appear among the
surviving nodes of the first table, and the choices on a shard in lexicographic order of their
nodes' positions.  Without such a choice there are no targets; if every table keeps a node, this is
because the tables share no shard. -/
theorem unrelated_targets_by_shard (hothers : others ≠ [])
    (hunrelated : r.isBinding (first :: others) = false)
    (hnodes : ∀ t ∈ first :: others, r.dataNodes t = .ok (nodes t) ∧ (nodes t).Nodup)
    (hresolvable : ∀ t ∈ first :: others, r.Resolvable conditions params t) :
    ∃ choices : List Choice,
      (∀ c, c ∈ choices ↔
        c.Of (fun t node => node ∈ r.survivors conditions params t) (first :: others)) ∧
      choices.Pairwise (Choice.Before ((r.survivors conditions params first).map (·.shard))
        (fun t node => (nodes t).idxOf node) (first :: others)) ∧
      (choices.map (·.target (first :: others))).Nodup ∧
      (choices ≠ [] → r.targets (first :: others) conditions params =
        .ok (choices.map (·.target (first :: others)))) ∧
      (choices = [] → ∃ cause, r.targets (first :: others) conditions params = .error cause ∧
        ((∀ t ∈ first :: others, r.survivors conditions params t ≠ []) →
          cause = .noSharedShard (first :: others))) := by
  have hmem := @mem_choicesOf (r.survivors conditions params) first others
  have hbefore := pairwise_choicesOf first fun t ht =>
    pairwise_survivors conditions params (hnodes t ht).1 (hnodes t ht).2
  have htargets := targets_of_unrelated hothers hunrelated (fun t ht => (hnodes t ht).1) hresolvable
  refine ⟨_, fun c => hmem, hbefore, ?_, fun hsome => ?_, fun hnone => ?_⟩
  · refine List.pairwise_map.2 (hbefore.imp_of_mem fun hc hc' hlt heq => hlt.ne ?_)
    exact Choice.eq_of_target (hmem.1 hc) (hmem.1 hc') heq
  · -- a choice has a node for each table
    obtain ⟨c, hc⟩ := List.exists_mem_of_ne_nil _ hsome
    rw [htargets ?_, if_neg hsome]
    intro t ht hempty
    obtain ⟨node, hnode, -⟩ := (hmem.1 hc).exists_node ht
    rw [hempty] at hnode
    exact List.not_mem_nil hnode
  · by_cases hkept : ∀ t ∈ first :: others, r.survivors conditions params t ≠ []
    · exact ⟨_, (htargets hkept).trans (if_pos hnone), fun _ => rfl⟩
    · push Not at hkept
      obtain ⟨cause, hcause⟩ := entries_of_none (fun t ht => (hnodes t ht).1) hresolvable hkept
      refine ⟨cause, ?_, fun hall => ?_⟩
      · rw [targets, hcause]
        rfl
      · obtain ⟨t, ht, hempty⟩ := hkept
        exact absurd hempty (hall t ht)

end ShardingRule

/-- Data nodes of two tables that are spread differently. -/
def shopNodes (table : String) : List DataNode :=
  if table = "t_user" then
    [⟨"ds_0", "t_user_0"⟩, ⟨"ds_1", "t_user_1"⟩, ⟨"ds_0", "t_user_2"⟩, ⟨"ds_1", "t_user_3"⟩]
  else [⟨"ds_1", "t_order_0"⟩, ⟨"ds_0", "t_order_1"⟩, ⟨"ds_2", "t_order_2"⟩]

/-- Orders, which can be on every node, and users, spread by their numbers. -/
def shopRule : ShardingRule where
  tables := [{ name := "t_order", nodes := shopNodes "t_order" },
    { name := "t_user", nodes := shopNodes "t_user", strategy := some ⟨"id", .modulo⟩ }]

/-- The users 0, 1 and 3. -/
def shopConditions : List Condition :=
  [⟨"t_user", "id", .oneOf [.literal (.int64 0), .literal (.int64 1), .literal (.int64 3)]⟩]

/-- Two shards have both orders and users, and a third one has only orders. -/
theorem unrelated_targets_by_shard_shop :
    ∃ choices : List Choice,
      (∀ c, c ∈ choices ↔ c.Of (fun t node => node ∈ shopRule.survivors shopConditions [] t)
        ["t_order", "t_user"]) ∧
      choices.Pairwise (Choice.Before
        ((shopRule.survivors shopConditions [] "t_order").map (·.shard))
        (fun t node => (shopNodes t).idxOf node) ["t_order", "t_user"]) ∧
      (choices.map (·.target ["t_order", "t_user"])).Nodup ∧
      (choices ≠ [] → shopRule.targets ["t_order", "t_user"] shopConditions [] =
        .ok (choices.map (·.target ["t_order", "t_user"]))) ∧
      (choices = [] → ∃ cause,
        shopRule.targets ["t_order", "t_user"] shopConditions [] = .error cause ∧
        ((∀ t ∈ ["t_order", "t_user"], shopRule.survivors shopConditions [] t ≠ []) →
          cause = .noSharedShard ["t_order", "t_user"])) := by
  refine ShardingRule.unrelated_targets_by_shard (by decide) (by decide) ?_ ?_
  · exact List.forall_mem_cons.2 ⟨⟨rfl, by decide⟩,
      List.forall_mem_singleton.2 ⟨rfl, by decide⟩⟩
  · refine List.forall_mem_cons.2 ⟨fun c hc => absurd hc List.not_mem_nil,
      List.forall_mem_singleton.2 (List.forall_mem_singleton.2 ?_)⟩
    exact ⟨[⟨"ds_0", "t_user_0"⟩, ⟨"ds_1", "t_user_1"⟩, ⟨"ds_1", "t_user_3"⟩], rfl⟩

example : shopRule.targets ["t_order", "t_user"] shopConditions [] =
    .ok [⟨"ds_1", [("t_order", "t_order_0"), ("t_user", "t_user_1")]⟩,
      ⟨"ds_1", [("t_order", "t_order_0"), ("t_user", "t_user_3")]⟩,
      ⟨"ds_0", [("t_order", "t_order_1"), ("t_user", "t_user_0")]⟩] := rfl

end Sharding
