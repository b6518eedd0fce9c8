import Sharding.Proofs.Route.Surviving

/-!
# Tables paired by position

The tables of a binding group are spread alike: at each position of the configuration their nodes
belong together.  A statement over such tables has a target for each position at which every table
keeps its node (`ShardingRule.binding_targets_by_position`).

* `exists_positions` finds the survivors of the first table at their positions.
* `ShardingRule.pairedTables_eq` follows the other tables at one position, and
  `ShardingRule.bindingTarget_at` makes a target of it, or none.
* `exists_paired` collects the positions that have a target, and
  `ShardingRule.exists_bindingTargets` the targets.
-/

namespace Sharding

/-- The elements that pass a test, with their positions. -/
theorem exists_positions {α : Type} (test : α → Bool) (xs : List α) :
    ∃ positions : List Nat, positions.Pairwise (· < ·) ∧
      (∀ p x, xs[p]? = some x → test x = true → p ∈ positions) ∧
      List.Forall₂ (fun p x => xs[p]? = some x ∧ test x = true) positions (xs.filter test) := by
  have hfilter : xs.filter test = (xs.zipIdx.filter fun q => test q.1).map Prod.fst := by
    conv_lhs => rw [← List.zipIdx_map_fst 0 xs]
    rw [List.filter_map]
    rfl
  refine ⟨(xs.zipIdx.filter fun q => test q.1).map Prod.snd, ?_, fun p x hx htest => ?_, ?_⟩
  · have hrange : (xs.zipIdx.map Prod.snd).Pairwise (· < ·) := by
      rw [List.zipIdx_map_snd]
      exact List.pairwise_lt_range'
    exact hrange.sublist (List.filter_sublist.map _)
  · exact List.mem_map.2 ⟨(x, p), List.mem_filter.2 ⟨List.mem_zipIdx_iff_getElem?.2 hx, htest⟩, rfl⟩
  · rw [hfilter, List.forall₂_map_left_iff, List.forall₂_map_right_iff, List.forall₂_same]
    rintro ⟨x, p⟩ hq
    obtain ⟨hmem, htest⟩ := List.mem_filter.1 hq
    exact ⟨List.mem_zipIdx_iff_getElem?.1 hmem, htest⟩

namespace ShardingRule

variable {r : ShardingRule} {conditions : List Condition} {params : List Datum}

/-! ## One position -/

/-- The other tables of a group at a position where all of them have a node on the shard. -/
theorem pairedTables_eq {first shard : String} {p : Nat} {pick : String → DataNode}
    {others : List TableNodes}
    (h : ∀ o ∈ others, ∃ nodes, r.dataNodes o.table = .ok nodes ∧
      nodes[p]? = some (pick o.table) ∧ (pick o.table).shard = shard) :
    r.pairedTables first shard p others =
      .ok (if ∀ o ∈ others, pick o.table ∈ o.nodes
        then some (others.map fun o => (o.table, (pick o.table).table)) else none) := by
  induction others with
  | nil => rfl
  | cons o others ih =>
    obtain ⟨nodes, hnodes, hpick, hshard⟩ := h o List.mem_cons_self
    have hrest := ih fun o ho => h o (List.mem_cons_of_mem _ ho)
    rw [pairedTables, hnodes]
    dsimp only [bind, Except.bind]
    rw [hpick]
    dsimp only
    rw [if_neg (not_not_intro hshard), hrest]
    by_cases hmem : pick o.table ∈ o.nodes
    · rw [if_neg (not_not_intro hmem)]
      simp only [List.forall_mem_cons, hmem, true_and, List.map_cons]
      by_cases hall : ∀ o ∈ others, pick o.table ∈ o.nodes
      · simp only [if_pos hall]
        rfl
      · simp only [if_neg hall]
        rfl
    · rw [if_pos hmem, if_neg fun hall => hmem (hall o List.mem_cons_self)]
      rfl

/-- Every table keeps its node at a position. -/
def KeptAt (r : ShardingRule) (conditions : List Condition) (params : List Datum)
    (nodes : String → List DataNode) (tables : List String) (p : Nat) : Prop :=
  ∀ t ∈ tables, ∃ node, (nodes t)[p]? = some node ∧ r.survives conditions params t node = true

/-- The tables of a group have distinct nodes, and nodes at one position are on one shard. -/
def Aligned (r : ShardingRule) (nodes : String → List DataNode) (shards tables : List String) :
    Prop :=
  ∀ t ∈ tables, r.dataNodes t = .ok (nodes t) ∧ (nodes t).Nodup ∧ (nodes t).map (·.shard) = shards

/-- What becomes of a position: the target of its nodes when all of them are kept, and nothing
otherwise. -/
def PairedAt (r : ShardingRule) (conditions : List Condition) (params : List Datum)
    (nodes : String → List DataNode) (tables : List String) (p : Nat) :
    Option RouteTarget → Prop
  | none => ¬ r.KeptAt conditions params nodes tables p
  | some target => r.KeptAt conditions params nodes tables p ∧
      ∃ c : Choice, c.Of (fun t node => (nodes t)[p]? = some node) tables ∧
        target = c.target tables

variable {nodes : String → List DataNode} {shards : List String} {first : String}
  {others : List String}

/-- The target at the position of a surviving node of the first table. -/
theorem bindingTarget_at (haligned : r.Aligned nodes shards (first :: others)) {p : Nat}
    {node : DataNode} (hnode : (nodes first)[p]? = some node)
    (hkept : r.survives conditions params first node = true) :
    ∃ o, r.bindingTarget first (nodes first)
        (others.map fun t => ⟨t, r.survivors conditions params t⟩) node = .ok o ∧
      r.PairedAt conditions params nodes (first :: others) p o := by
  -- the nodes of all tables at the position
  have hpick : ∀ t, ∃ x : DataNode, t ∈ first :: others →
      (nodes t)[p]? = some x ∧ x.shard = node.shard := by
    intro t
    by_cases ht : t ∈ first :: others
    · obtain ⟨-, -, hshards⟩ := haligned t ht
      obtain ⟨-, -, hfirst⟩ := haligned first List.mem_cons_self
      have hshard : ((nodes t).map (·.shard))[p]? = some node.shard := by
        rw [hshards, ← hfirst, List.getElem?_map, hnode]
        rfl
      rw [List.getElem?_map] at hshard
      obtain ⟨x, hx, hxshard⟩ := Option.map_eq_some_iff.1 hshard
      exact ⟨x, fun _ => ⟨hx, hxshard⟩⟩
    · exact ⟨node, fun h => absurd h ht⟩
  choose pick hpick using hpick
  have hfirst : pick first = node :=
    Option.some.inj ((hpick first List.mem_cons_self).1.symm.trans hnode)
  -- a node is among the survivors of its table if it survives
  have hmem : ∀ t ∈ others, (pick t ∈ r.survivors conditions params t ↔
      r.survives conditions params t (pick t) = true) := by
    intro t ht
    obtain ⟨hnodes, -⟩ := haligned t (List.mem_cons_of_mem _ ht)
    rw [survivors_eq hnodes, List.mem_filter]
    exact and_iff_right (List.mem_of_getElem? (hpick t (List.mem_cons_of_mem _ ht)).1)
  have hposition : (nodes first).idxOf? node = some p := by
    obtain ⟨-, hnodup, -⟩ := haligned first List.mem_cons_self
    obtain ⟨hlt, hget⟩ := List.getElem?_eq_some_iff.1 hnode
    refine List.idxOf?_eq_some_iff.2 ⟨hlt, hget, fun j hj hjget => ?_⟩
    exact hj.ne (hnodup.getElem_inj_iff.1 (hjget.trans hget.symm))
  have hpaired : ∀ o ∈ others.map fun t => TableNodes.mk t (r.survivors conditions params t),
      ∃ all, r.dataNodes o.table = .ok all ∧ all[p]? = some (pick o.table) ∧
        (pick o.table).shard = node.shard := by
    intro o ho
    obtain ⟨t, ht, rfl⟩ := List.mem_map.1 ho
    have ht := List.mem_cons_of_mem first ht
    exact ⟨nodes t, (haligned t ht).1, hpick t ht⟩
  rw [bindingTarget, hposition]
  dsimp only
  rw [pairedTables_eq hpaired]
  refine ⟨_, rfl, ?_⟩
  by_cases hall : ∀ o ∈ others.map fun t => TableNodes.mk t (r.survivors conditions params t),
      pick o.table ∈ o.nodes
  · rw [if_pos hall]
    refine ⟨List.forall_mem_cons.2 ⟨⟨node, hnode, hkept⟩, fun t ht => ?_⟩, ?_⟩
    · exact ⟨pick t, (hpick t (List.mem_cons_of_mem _ ht)).1,
        (hmem t ht).1 (hall _ (List.mem_map.2 ⟨t, ht, rfl⟩))⟩
    · refine ⟨⟨node.shard, (first :: others).map pick⟩, ?_, ?_⟩
      · exact List.forall₂_map_right_iff.2 (List.forall₂_same.2 hpick)
      · rw [Choice.target, List.zipWith_map_right, List.zipWith_self, List.map_map]
        show _ = RouteTarget.mk node.shard ((first, (pick first).table) :: _)
        rw [hfirst]
        rfl
  · rw [if_neg hall]
    refine fun hkeptAt => hall fun o ho => ?_
    obtain ⟨t, ht, rfl⟩ := List.mem_map.1 ho
    obtain ⟨x, hx, hsurvives⟩ := hkeptAt t (List.mem_cons_of_mem _ ht)
    obtain rfl : pick t = x :=
      Option.some.inj ((hpick t (List.mem_cons_of_mem _ ht)).1.symm.trans hx)
    exact (hmem t ht).2 hsurvives

/-! ## All positions -/

/-- The targets of some positions are those of the positions that are kept. -/
theorem exists_paired {tables : List String} {ps : List Nat} {os : List (Option RouteTarget)}
    (h : List.Forall₂ (r.PairedAt conditions params nodes tables) ps os) :
    ∃ (kept : List Nat) (choices : List Choice), kept.Sublist ps ∧
      (∀ p, p ∈ kept ↔ p ∈ ps ∧ r.KeptAt conditions params nodes tables p) ∧
      List.Forall₂ (fun p c => c.Of (fun t node => (nodes t)[p]? = some node) tables)
        kept choices ∧
      os.filterMap id = choices.map (·.target tables) := by
  induction h with
  | nil => exact ⟨[], [], .slnil, fun p => by simp, .nil, rfl⟩
  | @cons p o ps os hpaired _ ih =>
    obtain ⟨kept, choices, hsub, hkept, hchoices, htargets⟩ := ih
    cases o with
    | none =>
      refine ⟨kept, choices, hsub.cons p, fun q => ?_, hchoices, htargets⟩
      rw [hkept, List.mem_cons]
      refine ⟨fun ⟨hq, hk⟩ => ⟨.inr hq, hk⟩, fun ⟨hq, hk⟩ => ⟨hq.resolve_left ?_, hk⟩⟩
      rintro rfl
      exact hpaired hk
    | some target =>
      obtain ⟨hp, c, hc, rfl⟩ := hpaired
      refine ⟨p :: kept, c :: choices, hsub.cons_cons p, fun q => ?_, .cons hc hchoices, ?_⟩
      · rw [List.mem_cons, List.mem_cons, hkept]
        refine ⟨?_, fun ⟨hq, hk⟩ => hq.imp_right fun hq => ⟨hq, hk⟩⟩
        rintro (rfl | ⟨hq, hk⟩)
        · exact ⟨.inl rfl, hp⟩
        · exact ⟨.inr hq, hk⟩
      · rw [List.map_cons, ← htargets]
        rfl

/-- The targets of aligned tables, as they are found: by the survivors of the first table. -/
theorem exists_bindingTargets (conditions : List Condition) (params : List Datum)
    (haligned : r.Aligned nodes shards (first :: others)) :
    ∃ (positions : List Nat) (choices : List Choice), positions.Pairwise (· < ·) ∧
      (∀ p, p ∈ positions ↔ r.KeptAt conditions params nodes (first :: others) p) ∧
      List.Forall₂ (fun p c => c.Of (fun t node => (nodes t)[p]? = some node) (first :: others))
        positions choices ∧
      r.bindingTargets ⟨first, r.survivors conditions params first⟩
          (others.map fun t => ⟨t, r.survivors conditions params t⟩) =
        if positions = [] then .error .noCommonNode
        else .ok (choices.map (·.target (first :: others))) := by
  obtain ⟨hfirst, -, -⟩ := haligned first List.mem_cons_self
  obtain ⟨ps, hincreasing, hall, hps⟩ :=
    exists_positions (r.survives conditions params first) (nodes first)
  rw [← survivors_eq hfirst] at hps
  obtain ⟨os, hos, hpaired⟩ := exists_mapM_of_forall₂ hps fun p node ⟨hnode, hkept⟩ =>
    bindingTarget_at haligned hnode hkept
  obtain ⟨kept, choices, hsub, hkept, hchoices, htargets⟩ := exists_paired hpaired
  refine ⟨kept, choices, hincreasing.sublist hsub, fun p => ?_, hchoices, ?_⟩
  · refine (hkept p).trans ⟨And.right, fun hp => ⟨?_, hp⟩⟩
    obtain ⟨node, hnode, hsurvives⟩ := hp first List.mem_cons_self
    exact hall p node hnode hsurvives
  · rw [bindingTargets]
    dsimp only
    rw [hfirst]
    show (List.mapM (r.bindingTarget first (nodes first) _)
      (r.survivors conditions params first) >>= _) = _
    rw [hos]
    dsimp only [bind, Except.bind]
    rw [htargets]
    cases hchoices with
    | nil => rfl
    | cons _ _ => rfl

/-- Tables of a binding group whose nodes are aligned have a target for each position at which all
of them keep their node, in the order of the positions: its shard is that of the nodes at the
position, and it has the actual table of each of them.  Without such a position there are no
targets. -/
theorem binding_targets_by_position {tables : List String} (htwo : 2 ≤ tables.length)
    (hbinding : r.isBinding tables = true) (haligned : r.Aligned nodes shards tables)
    (hresolvable : ∀ t ∈ tables, r.Resolvable conditions params t)
    (hkept : ∀ t ∈ tables, ∃ node ∈ nodes t, r.survives conditions params t node = true) :
    ∃ (positions : List Nat) (choices : List Choice), positions.Pairwise (· < ·) ∧
      (∀ p, p ∈ positions ↔ r.KeptAt conditions params nodes tables p) ∧
      List.Forall₂ (fun p c => c.Of (fun t node => (nodes t)[p]? = some node) tables)
        positions choices ∧
      r.targets tables conditions params =
        if positions = [] then .error .noCommonNode
        else .ok (choices.map (·.target tables)) := by
  have hfor : ∀ t ∈ tables, r.nodesFor t conditions params =
      .ok (r.survivors conditions params t) := by
    intro t ht
    obtain ⟨hnodes, -, -⟩ := haligned t ht
    obtain ⟨node, hnode, hsurvives⟩ := hkept t ht
    refine nodesFor_of_survivors hnodes (hresolvable t ht) (List.ne_nil_of_mem (a := node) ?_)
    rw [survivors_eq hnodes]
    exact List.mem_filter.2 ⟨hnode, hsurvives⟩
  match tables, htwo with
  | first :: second :: others, _ =>
    obtain ⟨positions, choices, hincreasing, hpositions, hchoices, htargets⟩ :=
      exists_bindingTargets conditions params haligned
    refine ⟨positions, choices, hincreasing, hpositions, hchoices, ?_⟩
    rw [targets_of_survivors (List.cons_ne_nil _ _) hfor, if_pos hbinding]
    exact htargets

end ShardingRule

/-- Data nodes of a table of the orders: four actual tables on two shards in turn. -/
def orderNodes (table : String) : List DataNode :=
  [⟨"ds_0", table ++ "_0"⟩, ⟨"ds_1", table ++ "_1"⟩, ⟨"ds_0", table ++ "_2"⟩,
    ⟨"ds_1", table ++ "_3"⟩]

/-- Orders and their items, spread by users. -/
def orderRule : ShardingRule where
  tables := ["t_order", "t_order_item"].map fun name =>
    { name, nodes := orderNodes name, strategy := some ⟨"user_id", .modulo⟩ }
  bindingGroups := [["T_ORDER", "T_ORDER_ITEM"]]

/-- The orders of users 1 and 2, and the items of users from 2 to 3. -/
def orderConditions : List Condition :=
  [⟨"t_order", "user_id", .oneOf [.literal (.int64 1), .literal (.int64 2)]⟩,
   ⟨"t_order_item", "user_id",
    .between (some (.literal (.int64 2))) (some (.literal (.int64 3)))⟩]

/-- Both tables keep their node at one position only. -/
theorem binding_targets_by_position_orders :
    ∃ (positions : List Nat) (choices : List Choice), positions.Pairwise (· < ·) ∧
      (∀ p, p ∈ positions ↔
        orderRule.KeptAt orderConditions [] orderNodes ["t_order", "t_order_item"] p) ∧
      List.Forall₂ (fun p c => c.Of (fun t node => (orderNodes t)[p]? = some node)
        ["t_order", "t_order_item"]) positions choices ∧
      orderRule.targets ["t_order", "t_order_item"] orderConditions [] =
        if positions = [] then .error .noCommonNode
        else .ok (choices.map (·.target ["t_order", "t_order_item"])) := by
  have haligned : orderRule.Aligned orderNodes ["ds_0", "ds_1", "ds_0", "ds_1"]
      ["t_order", "t_order_item"] := by
    refine List.forall_mem_cons.2 ⟨⟨rfl, by decide, rfl⟩, List.forall_mem_singleton.2 ?_⟩
    exact ⟨rfl, by decide, rfl⟩
  have hresolvable : ∀ t ∈ ["t_order", "t_order_item"],
      orderRule.Resolvable orderConditions [] t := by
    refine List.forall_mem_cons.2 ⟨?_, List.forall_mem_singleton.2 ?_⟩
    · exact List.forall_mem_singleton.2
        ⟨[⟨"ds_1", "t_order_1"⟩, ⟨"ds_0", "t_order_2"⟩], rfl⟩
    · exact List.forall_mem_singleton.2
        ⟨[⟨"ds_0", "t_order_item_2"⟩, ⟨"ds_1", "t_order_item_3"⟩], rfl⟩
  have hkept : ∀ t ∈ ["t_order", "t_order_item"], ∃ node ∈ orderNodes t,
      orderRule.survives orderConditions [] t node = true := by
    refine List.forall_mem_cons.2 ⟨⟨⟨"ds_0", "t_order_2"⟩, by decide, rfl⟩, ?_⟩
    exact List.forall_mem_singleton.2 ⟨⟨"ds_0", "t_order_item_2"⟩, by decide, rfl⟩
  exact ShardingRule.binding_targets_by_position (by decide) (by decide) haligned hresolvable hkept

example : orderRule.targets ["t_order", "t_order_item"] orderConditions [] =
    .ok [⟨"ds_0", [("t_order", "t_order_2"), ("t_order_item", "t_order_item_2")]⟩] := rfl

end Sharding
