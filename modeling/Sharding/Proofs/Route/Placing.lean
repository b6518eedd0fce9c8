import Mathlib.Data.List.Induction
import Mathlib.Data.List.Nodup
import Sharding.Proofs.Distinct
import Sharding.Route.Insert

/-!
# Rows on nodes

`groupByNode` takes rows with the nodes that store them, one row after the other.  After any number
of rows its groups are the nodes so far, each once, in the order of their first row
(`groupByNode_nodes`), and each with its rows in their order (`groupByNode_eq`).

Where every row has one node, the groups divide the rows (`perm_of_singletons`); where every row has
all nodes, each node gets all rows (`rowsOn_const`).
-/

namespace Sharding

variable {row : InsertRow} {node : DataNode} {nodes : List DataNode}

/-- Adding a row to a node, where the groups are given by the rows of each node. -/
theorem addToNode_map {rowsOf : DataNode → List InsertRow} (h : nodes.Nodup)
    (hnew : node ∉ nodes → rowsOf node = []) :
    addToNode row node (nodes.map fun n => (n, rowsOf n)) =
      (if node ∈ nodes then nodes else nodes ++ [node]).map fun n =>
        (n, if n = node then rowsOf n ++ [row] else rowsOf n) := by
  induction nodes with
  | nil =>
    rw [if_neg List.not_mem_nil, List.nil_append, List.map_singleton, if_pos rfl,
      hnew List.not_mem_nil]
    rfl
  | cons n nodes ih =>
    obtain ⟨hn, h⟩ := List.nodup_cons.1 h
    rw [List.map_cons, addToNode]
    by_cases hnode : n = node
    · -- the node is the first one, and does not come again
      subst hnode
      have hrest : (nodes.map fun m => (m, rowsOf m)) =
          nodes.map fun m => (m, if m = n then rowsOf m ++ [row] else rowsOf m) := by
        refine List.map_congr_left fun m hm => ?_
        have hne : m ≠ n := fun heq => hn (heq ▸ hm)
        rw [if_neg hne]
      rw [if_pos rfl, if_pos List.mem_cons_self, List.map_cons, if_pos rfl, hrest]
    · rw [if_neg hnode, ih h fun hmem => hnew fun hcons =>
        (List.mem_cons.1 hcons).elim (fun heq => hnode heq.symm) hmem]
      by_cases hmem : node ∈ nodes
      · rw [if_pos hmem, if_pos (List.mem_cons_of_mem _ hmem), List.map_cons, if_neg hnode]
      · have hcons : node ∉ n :: nodes := by
          rw [List.mem_cons, not_or]
          exact ⟨fun heq => hnode heq.symm, hmem⟩
        rw [if_neg hmem, if_neg hcons, List.cons_append, List.map_cons, if_neg hnode]

/-- Adding a row to all of its nodes. -/
theorem foldl_addToNode {seen home : List DataNode} {rowsOf : DataNode → List InsertRow}
    (h : home.Nodup) (hnew : ∀ n, n ∉ seen → rowsOf n = []) :
    home.foldl (fun groups n => addToNode row n groups)
        ((distinct seen).map fun n => (n, rowsOf n)) =
      (distinct (seen ++ home)).map fun n =>
        (n, if n ∈ home then rowsOf n ++ [row] else rowsOf n) := by
  induction home generalizing seen rowsOf with
  | nil =>
    rw [List.foldl_nil, List.append_nil]
    exact List.map_congr_left fun n _ => by rw [if_neg List.not_mem_nil]
  | cons first home ih =>
    obtain ⟨hfirst, h⟩ := List.nodup_cons.1 h
    have hadd : addToNode row first ((distinct seen).map fun n => (n, rowsOf n)) =
        (distinct (seen ++ [first])).map fun n =>
          (n, if n = first then rowsOf n ++ [row] else rowsOf n) := by
      rw [distinct_concat]
      exact addToNode_map (nodup_distinct seen)
        fun hmem => hnew first fun hseen => hmem (mem_distinct.2 hseen)
    rw [List.foldl_cons, hadd, ih h, List.append_assoc, List.singleton_append]
    · refine List.map_congr_left fun n _ => ?_
      by_cases hn : n = first
      · subst hn
        rw [if_neg hfirst, if_pos rfl, if_pos List.mem_cons_self]
      · rw [if_neg hn]
        simp only [List.mem_cons, hn, false_or]
    · intro n hn
      rw [List.mem_append, List.mem_singleton, not_or] at hn
      rw [if_neg hn.2]
      exact hnew n hn.1

/-! ## Nodes of groups -/

section Nodes

variable {groups : List (DataNode × List InsertRow)}

/-- A node without rows so far comes last. -/
theorem addToNode_nodes :
    (addToNode row node groups).map Prod.fst =
      if node ∈ groups.map Prod.fst then groups.map Prod.fst
      else groups.map Prod.fst ++ [node] := by
  induction groups with
  | nil => rfl
  | cons group groups ih =>
    obtain ⟨n, rows⟩ := group
    rw [addToNode]
    by_cases hnode : n = node
    · subst hnode
      rw [if_pos rfl, List.map_cons, List.map_cons, if_pos List.mem_cons_self]
    · rw [if_neg hnode, List.map_cons, List.map_cons, ih]
      by_cases hmem : node ∈ groups.map Prod.fst
      · rw [if_pos hmem, if_pos (List.mem_cons_of_mem _ hmem)]
      · have hcons : node ∉ n :: groups.map Prod.fst := by
          rw [List.mem_cons, not_or]
          exact ⟨fun heq => hnode heq.symm, hmem⟩
        rw [if_neg hmem, if_neg hcons, List.cons_append]

theorem foldl_addToNode_nodes {seen home : List DataNode}
    (h : groups.map Prod.fst = distinct seen) :
    (home.foldl (fun groups n => addToNode row n groups) groups).map Prod.fst =
      distinct (seen ++ home) := by
  induction home generalizing seen groups with
  | nil => rw [List.foldl_nil, List.append_nil, h]
  | cons first home ih =>
    have hfirst : (addToNode row first groups).map Prod.fst = distinct (seen ++ [first]) := by
      rw [addToNode_nodes, distinct_concat, h]
    rw [List.foldl_cons, ih hfirst, List.append_assoc, List.singleton_append]

/-- Each node has one group, whatever nodes the rows come with. -/
theorem groupByNode_nodes (placed : List (InsertRow × List DataNode)) :
    (groupByNode placed).map Prod.fst = distinct (placed.flatMap (·.2)) := by
  induction placed using List.reverseRecOn with
  | nil => rfl
  | append_singleton placed pair ih =>
    rw [groupByNode, List.foldl_append, List.foldl_cons, List.foldl_nil, List.flatMap_append,
      List.flatMap_singleton]
    exact foldl_addToNode_nodes ih

end Nodes

/-! ## Groups -/

/-- The nodes of some rows, in the order of the first row of each. -/
def nodesOf (homeOf : InsertRow → List DataNode) (rows : List InsertRow) : List DataNode :=
  distinct (rows.flatMap homeOf)

/-- The rows of a node, in their order. -/
def rowsOn (homeOf : InsertRow → List DataNode) (rows : List InsertRow) (node : DataNode) :
    List InsertRow :=
  rows.filter fun row => node ∈ homeOf row

section Groups

variable {rows : List InsertRow} {homeOf : InsertRow → List DataNode}

theorem mem_nodesOf : node ∈ nodesOf homeOf rows ↔ ∃ row ∈ rows, node ∈ homeOf row := by
  rw [nodesOf, mem_distinct, List.mem_flatMap]

theorem mem_rowsOn : row ∈ rowsOn homeOf rows node ↔ row ∈ rows ∧ node ∈ homeOf row := by
  rw [rowsOn, List.mem_filter, decide_eq_true_eq]

/-- The groups are the nodes in the order of their first rows, each with its rows in order. -/
theorem groupByNode_eq (h : ∀ row ∈ rows, (homeOf row).Nodup) :
    groupByNode (rows.map fun row => (row, homeOf row)) =
      (nodesOf homeOf rows).map fun node => (node, rowsOn homeOf rows node) := by
  unfold nodesOf rowsOn
  induction rows using List.reverseRecOn with
  | nil => rfl
  | append_singleton rows row ih =>
    have ih := ih fun r hr => h r (List.mem_append_left _ hr)
    unfold groupByNode at ih ⊢
    rw [List.map_append, List.foldl_append, ih, List.map_singleton, List.foldl_cons,
      List.foldl_nil]
    dsimp only
    rw [foldl_addToNode (h row (List.mem_append_right _ List.mem_cons_self)),
      List.flatMap_append, List.flatMap_singleton]
    · refine List.map_congr_left fun node _ => ?_
      rw [List.filter_append, List.filter_singleton]
      by_cases hnode : node ∈ homeOf row
      · rw [if_pos hnode, decide_eq_true hnode]
        rfl
      · rw [if_neg hnode, decide_eq_false hnode]
        exact congrArg (Prod.mk node) (List.append_nil _).symm
    · intro node hnode
      rw [List.filter_eq_nil_iff]
      intro r hr hmem
      exact hnode (List.mem_flatMap.2 ⟨r, hr, of_decide_eq_true hmem⟩)

/-- Rows with one node each are divided among the nodes. -/
theorem perm_of_singletons (hrows : rows.Nodup) (h : ∀ row ∈ rows, ∃ node, homeOf row = [node]) :
    ((nodesOf homeOf rows).flatMap (rowsOn homeOf rows)).Perm rows := by
  rw [List.perm_ext_iff_of_nodup _ hrows]
  · intro row
    rw [List.mem_flatMap]
    constructor
    · rintro ⟨node, _, hrow⟩
      exact (mem_rowsOn.1 hrow).1
    · intro hrow
      obtain ⟨node, hnode⟩ := h row hrow
      have hmem : node ∈ homeOf row := by
        rw [hnode]
        exact List.mem_singleton_self node
      exact ⟨node, mem_nodesOf.2 ⟨row, hrow, hmem⟩, mem_rowsOn.2 ⟨hrow, hmem⟩⟩
  · rw [List.nodup_flatMap]
    refine ⟨fun node _ => hrows.filter _, (nodup_distinct _).imp fun {node node'} hne => ?_⟩
    intro row hrow hrow'
    obtain ⟨hmem, hnode⟩ := mem_rowsOn.1 hrow
    obtain ⟨-, hnode'⟩ := mem_rowsOn.1 hrow'
    obtain ⟨only, honly⟩ := h row hmem
    rw [honly, List.mem_singleton] at hnode hnode'
    exact hne (hnode.trans hnode'.symm)

/-- Where every row has all nodes, the nodes come in their own order. -/
theorem nodesOf_const (hrows : rows ≠ []) (hnodes : nodes.Nodup)
    (h : ∀ row ∈ rows, homeOf row = nodes) : nodesOf homeOf rows = nodes := by
  unfold nodesOf
  cases rows with
  | nil => exact absurd rfl hrows
  | cons row rows =>
    rw [List.flatMap_cons, h row List.mem_cons_self, distinct_append_of_subset,
      distinct_eq_self hnodes]
    intro node hnode
    obtain ⟨r, hr, hmem⟩ := List.mem_flatMap.1 hnode
    rwa [h r (List.mem_cons_of_mem _ hr)] at hmem

/-- Where every row has all nodes, each node has all rows. -/
theorem rowsOn_const (h : ∀ row ∈ rows, homeOf row = nodes) (hnode : node ∈ nodes) :
    rowsOn homeOf rows node = rows := by
  rw [rowsOn, List.filter_eq_self]
  intro row hrow
  rw [h row hrow]
  exact decide_eq_true hnode

end Groups

end Sharding
