import Mathlib.Data.List.Basic
import Sharding.Proofs.Route.Inserts

/-!
# Rows of an insert over its units

A routed insert has each of its rows where the row is stored and nowhere else.

* `Insert.Keyed` says where the keys come from: from the statement, or from draws in row order.
* `Insert.Spread` says what the units are: the nodes in the order of their first rows, each with
  the physical insert of its rows in their order.

No unit is dropped as a repetition.  Two units are for two nodes, so they differ in the shard or in
the table that their texts name, and a table's name ends where the text goes on with a space.
-/

namespace Sharding

/-! ## Keys -/

/-- The results of draws one after the other, and the worlds before and after them. -/
inductive KeySource.Draws {W : Type} (source : KeySource W) (generator : Option Nat) :
    W → List Datum → W → Prop
  | none {w : W} : Draws source generator w [] w
  | next {w u w' : W} {key : Datum} {keys : List Datum} :
      (source.draw generator).run w = (.ok key, u) → Draws source generator u keys w' →
      Draws source generator w (key :: keys) w'

/-- Where the keys of an insert come from, and the worlds before and after. -/
inductive Insert.Keyed {W : Type} (rule : ShardingRule) (source : KeySource W) (i : Insert)
    (params : List Datum) : Option KeyInfo → W → W → Prop
  /-- An insert without a generated column. -/
  | none {w : W} : i.keyColumn = none → Keyed rule source i params none w w
  /-- An insert that lists its generated column: each row has its key there. -/
  | given {w : W} {column : String} {position : Nat} {values : List Datum} :
      i.keyColumn = some column → i.columnPosition? column = some position →
      List.Forall₂ (fun row value => ∃ operand : Operand, row[position]? = some operand ∧
        operand.resolve params = .ok value) i.rows values →
      Keyed rule source i params (some ⟨column, values, false⟩) w w
  /-- Any other insert: a key is drawn for each row. -/
  | drawn {w w' : W} {column : String} {values : List Datum} :
      i.keyColumn = some column → i.columnPosition? column = none →
      values.length = i.rows.length → source.Draws (rule.generator? i.table) w values w' →
      Keyed rule source i params (some ⟨column, values, true⟩) w w'

section Keys

variable {W : Type} {source : KeySource W} {rule : ShardingRule} {i : Insert}
  {params : List Datum} {info : Option KeyInfo} {w w' : W}

theorem KeySource.draws_of_mapM {α : Type} {generator : Option Nat} {xs : List α}
    {values : List Datum}
    (h : (xs.mapM fun _ => source.draw generator).run w = (.ok values, w')) :
    values.length = xs.length ∧ source.Draws generator w values w' := by
  induction xs generalizing values w with
  | nil =>
    rw [List.mapM_nil] at h
    obtain ⟨rfl, rfl⟩ := Act.eq_of_pure h
    exact ⟨rfl, .none⟩
  | cons x xs ih =>
    rw [List.mapM_cons] at h
    obtain ⟨key, u, hkey, h⟩ := Act.exists_of_bind_eq_ok h
    obtain ⟨keys, u', hkeys, h⟩ := Act.exists_of_bind_eq_ok h
    obtain ⟨rfl, rfl⟩ := Act.eq_of_pure h
    obtain ⟨hlength, hdraws⟩ := ih hkeys
    refine ⟨?_, .next hkey hdraws⟩
    rw [List.length_cons, List.length_cons, hlength]

/-- All rows of an insert that is not ragged have a value in each of its columns. -/
theorem Insert.length_of_raggedRow? (h : i.raggedRow? = none) :
    ∀ row ∈ i.rows, row.length = i.columns.length := by
  intro row hrow
  obtain ⟨position, hposition⟩ := List.mem_iff_getElem?.1 hrow
  have hmem : (row, position) ∈ i.rows.zipIdx := List.mem_zipIdx_iff_getElem?.2 hposition
  have hnot := List.find?_eq_none.1 h _ hmem
  dsimp only at hnot
  by_cases hlength : row.length = i.columns.length
  · exact hlength
  · exact absurd (decide_eq_true hlength) hnot

/-- The values of a column that all rows have, one for each row. -/
theorem forall₂_of_filterMap_mapM {rows : List (List Operand)} {position : Nat}
    {values : List Datum} (hrows : ∀ row ∈ rows, position < row.length)
    (h : (rows.filterMap (·[position]?)).mapM (Operand.resolve params) = .ok values) :
    List.Forall₂ (fun row value => ∃ operand : Operand, row[position]? = some operand ∧
      operand.resolve params = .ok value) rows values := by
  induction rows generalizing values with
  | nil =>
    cases h
    exact .nil
  | cons row rows ih =>
    have hlookup := List.getElem?_eq_getElem (hrows row List.mem_cons_self)
    simp only [List.filterMap_cons, hlookup, List.mapM_cons] at h
    obtain ⟨value, hvalue, h⟩ := exists_of_bind_eq_ok h
    obtain ⟨rest, hrest, h⟩ := exists_of_bind_eq_ok h
    cases h
    refine .cons ⟨_, hlookup, hvalue⟩ (ih (fun r hr => ?_) hrest)
    exact hrows r (List.mem_cons_of_mem _ hr)

theorem Insert.keyed_of_keys (hragged : i.raggedRow? = none)
    (h : (i.keys rule source params).run w = (.ok info, w')) :
    i.Keyed rule source params info w w' := by
  unfold Insert.keys at h
  cases hcolumn : i.keyColumn with
  | none =>
    rw [hcolumn] at h
    obtain ⟨rfl, rfl⟩ := Act.eq_of_pure h
    exact .none hcolumn
  | some column =>
    rw [hcolumn] at h
    dsimp only at h
    cases hposition : i.columnPosition? column with
    | none =>
      rw [hposition] at h
      obtain ⟨values, u, hdraws, h⟩ := Act.exists_of_bind_eq_ok h
      obtain ⟨rfl, rfl⟩ := Act.eq_of_pure h
      obtain ⟨hlength, hdraws⟩ := KeySource.draws_of_mapM hdraws
      exact .drawn hcolumn hposition hlength hdraws
    | some position =>
      rw [hposition] at h
      obtain ⟨values, u, hvalues, h⟩ := Act.exists_of_bind_eq_ok h
      obtain ⟨rfl, rfl⟩ := Act.eq_of_pure h
      obtain ⟨hresolved, rfl⟩ := Act.eq_of_ofExcept hvalues
      have hlt : position < i.columns.length := (List.findIdx?_eq_some_iff_getElem.1 hposition).1
      refine .given hcolumn hposition (forall₂_of_filterMap_mapM (fun row hrow => ?_)
        (eq_ok_of_mapError hresolved))
      rw [Insert.length_of_raggedRow? hragged row hrow]
      exact hlt

end Keys

/-! ## Rows -/

section Rows

variable {i : Insert} {info : Option KeyInfo}

/-- The rows of an insert are its lists of values, in their order. -/
theorem Insert.keyedRows_values (i : Insert) (info : Option KeyInfo) :
    (i.keyedRows info).map (·.values) = i.rows := by
  rw [Insert.keyedRows, List.map_map]
  exact List.zipIdx_map_fst 0 i.rows

/-- Each row of an insert with drawn keys has its own, and they are in row order. -/
theorem Insert.keyedRows_keys {keys : KeyInfo} (hdrawn : keys.generated = true)
    (hlength : keys.values.length = i.rows.length) :
    (i.keyedRows (some keys)).map (·.key) = keys.values.map some := by
  rw [Insert.keyedRows, List.map_map]
  refine List.ext_getElem? fun position => ?_
  have hfilter : (some keys).filter (·.generated) = some keys := by
    rw [Option.filter_some, if_pos hdrawn]
  rw [List.getElem?_map, List.getElem?_map, List.getElem?_zipIdx]
  by_cases hlt : position < i.rows.length
  · have hvalue : position < keys.values.length := by omega
    rw [List.getElem?_eq_getElem hlt, List.getElem?_eq_getElem hvalue]
    show some (((some keys).filter (·.generated)).bind (·.values[0 + position]?)) = _
    rw [hfilter, Option.bind_some, Nat.zero_add, List.getElem?_eq_getElem hvalue]
    rfl
  · rw [List.getElem?_eq_none (by omega), List.getElem?_eq_none (by omega)]
    rfl

/-- Rows with the same values are different rows, since they differ in their position. -/
theorem Insert.keyedRows_nodup (i : Insert) (info : Option KeyInfo) :
    (i.keyedRows info).Nodup := by
  refine List.Nodup.of_map (·.position) ?_
  rw [Insert.keyedRows, List.map_map]
  show (i.rows.zipIdx.map Prod.snd).Nodup
  rw [List.zipIdx_map_snd]
  exact List.nodup_range'

theorem Insert.keyedRows_ne_nil (h : ¬ i.rows.isEmpty) : i.keyedRows info ≠ [] := by
  intro hnil
  have hrows := i.keyedRows_values info
  rw [hnil, List.map_nil] at hrows
  exact h (by rw [← hrows]; rfl)

end Rows

/-! ## Units -/

/-- The units of an insert: each row is where it is stored, and the units are those of the nodes, in
the order of their first rows. -/
structure Insert.Spread (rule : ShardingRule) (t : TableRule) (i : Insert) (params : List Datum)
    (info : Option KeyInfo) (homeOf : InsertRow → List DataNode) (units : List RouteUnit) :
    Prop where
  home : ∀ row ∈ i.keyedRows info,
    row.Home rule t i.table params (i.fullColumns info) (homeOf row)
  marked : ∀ row ∈ i.keyedRows info, row.Marked params
  units_eq : units = (nodesOf homeOf (i.keyedRows info)).map fun node =>
    physicalInsert (i.fullColumns info) params node (rowsOn homeOf (i.keyedRows info) node)

section Units

variable {rule : ShardingRule} {t : TableRule} {i : Insert} {params : List Datum}
  {info : Option KeyInfo} {units : List RouteUnit}

/-- Units that routing makes are those of the rows where they are stored. -/
theorem Insert.spread_of_units (hunits : i.units rule params info = .ok units)
    (hnodes : ∀ t ∈ rule.tables, t.nodes.Nodup) :
    ∃ t homeOf, rule.table? i.table = some t ∧ t ∈ rule.tables ∧
      i.Spread rule t params info homeOf units := by
  unfold Insert.units at hunits
  obtain ⟨all, hall, hunits⟩ := exists_of_bind_eq_ok hunits
  obtain ⟨placed, hplaced, hgroups⟩ := exists_of_bind_eq_ok hunits
  obtain ⟨t, ht, rfl, hne⟩ := ShardingRule.table_of_dataNodes (eq_ok_of_mapError hall)
  have htable : t ∈ rule.tables := List.mem_of_find?_eq_some ht
  -- the nodes of a row are what routing finds for it
  let find := fun row : InsertRow => row.nodes rule i.table params t.nodes
    ((rule.shardingColumn? i.table).bind fun column =>
      (i.fullColumns info).findIdx? (sameName · column))
  let homeOf := fun row => (find row).toOption.getD []
  have hfind : ∀ row pair, (do return (row, ← find row)) = (Except.ok pair : Except Error _) →
      find row = .ok (homeOf row) ∧ pair = (row, homeOf row) := by
    intro row pair hpair
    obtain ⟨home, hhome, hpair⟩ := exists_of_bind_eq_ok hpair
    cases hpair
    have heq : homeOf row = home := by
      show (find row).toOption.getD [] = home
      rw [hhome]
      rfl
    rw [heq]
    exact ⟨hhome, rfl⟩
  have hhome : ∀ row ∈ i.keyedRows info,
      row.Home rule t i.table params (i.fullColumns info) (homeOf row) := by
    intro row hrow
    obtain ⟨pair, hpair⟩ := exists_of_mapM hplaced hrow
    exact InsertRow.home_of_nodes ht (hfind row pair hpair).1
  have hplaced : placed = (i.keyedRows info).map fun row => (row, homeOf row) :=
    mapM_eq_map hplaced fun row _ pair hpair => (hfind row pair hpair).2
  have hgroups := eq_ok_of_mapError hgroups
  rw [hplaced, groupByNode_eq fun row hrow => (hhome row hrow).nodup (hnodes t htable)] at hgroups
  refine ⟨t, homeOf, ht, htable, hhome, ?_, ?_⟩
  · -- each row is in the unit of some node
    intro row hrow
    obtain ⟨node, hnode⟩ := List.exists_mem_of_ne_nil _ ((hhome row hrow).ne_nil hne)
    have hgroup : (node, rowsOn homeOf (i.keyedRows info) node) ∈
        (nodesOf homeOf (i.keyedRows info)).map fun node =>
          (node, rowsOn homeOf (i.keyedRows info) node) :=
      List.mem_map.2 ⟨node, mem_nodesOf.2 ⟨row, hrow, hnode⟩, rfl⟩
    obtain ⟨unit, hunit⟩ := exists_of_mapM hgroups hgroup
    exact (insertUnit_eq hunit).2 row (mem_rowsOn.2 ⟨hrow, hnode⟩)
  · have hmap := mapM_eq_map
      (g := fun group => physicalInsert (i.fullColumns info) params group.1 group.2) hgroups
      fun group _ unit hunit => (insertUnit_eq hunit).1
    rw [hmap, List.map_map]
    rfl

/-! ### No repetition -/

/-- A table's name ends at the first space behind the first words of an insert. -/
theorem Sql.table_eq_of_insertText {table table' : String} {columns : List String}
    {rows rows' : List (List String)} (h : ' ' ∉ table.toList) (h' : ' ' ∉ table'.toList)
    (htext : Sql.insertText table columns rows = Sql.insertText table' columns rows') :
    table = table' := by
  have hname : ∀ name tail : List Char, ' ' ∉ name →
      (name ++ (" (".toList ++ tail)).takeWhile (· ≠ ' ') = name := by
    intro name tail hspace
    show (name ++ ' ' :: '(' :: tail).takeWhile (· ≠ ' ') = name
    rw [List.takeWhile_append_of_pos]
    · rw [List.takeWhile_cons_of_neg, List.append_nil]
      exact fun hne => of_decide_eq_true hne rfl
    · intro c hc
      exact decide_eq_true fun heq => hspace (heq ▸ hc)
  delta Sql.insertText at htext
  have hchars := congrArg String.toList htext
  simp only [String.toList_append, List.append_assoc] at hchars
  have htail := congrArg (List.takeWhile (· ≠ ' ')) (List.append_cancel_left hchars)
  rw [hname _ _ h, hname _ _ h'] at htail
  exact String.toList_inj.1 htail

/-- Units are for different nodes, so they differ in the shard or in the text. -/
theorem Insert.pairwise_units (hunits : i.units rule params info = .ok units)
    (hnames : ∀ t ∈ rule.tables, ∀ node ∈ t.nodes, ' ' ∉ node.table.toList) :
    units.Pairwise fun a b => ¬ (a.shard = b.shard ∧ a.sql = b.sql) := by
  unfold Insert.units at hunits
  obtain ⟨all, hall, hunits⟩ := exists_of_bind_eq_ok hunits
  obtain ⟨placed, hplaced, hgroups⟩ := exists_of_bind_eq_ok hunits
  obtain ⟨t, ht, rfl, -⟩ := ShardingRule.table_of_dataNodes (eq_ok_of_mapError hall)
  have hspaces : ∀ group ∈ groupByNode placed, ' ' ∉ group.1.table.toList := by
    intro group hgroup
    have hnode : group.1 ∈ placed.flatMap (·.2) := by
      rw [← mem_distinct, ← groupByNode_nodes]
      exact List.mem_map_of_mem hgroup
    obtain ⟨pair, hpair, hmem⟩ := List.mem_flatMap.1 hnode
    obtain ⟨row, -, hrow⟩ := exists_of_mem_mapM hplaced hpair
    obtain ⟨home, hhome, hrow⟩ := exists_of_bind_eq_ok hrow
    cases hrow
    exact hnames t (List.mem_of_find?_eq_some ht) _
      ((InsertRow.home_of_nodes ht hhome).subset _ hmem)
  have hdistinct : ((groupByNode placed).map Prod.fst).Nodup := by
    rw [groupByNode_nodes]
    exact nodup_distinct _
  rw [mapM_eq_map (g := fun group => physicalInsert (i.fullColumns info) params group.1 group.2)
    (eq_ok_of_mapError hgroups) fun group _ unit hunit => (insertUnit_eq hunit).1]
  refine List.pairwise_map.2 ((List.pairwise_map.1 hdistinct).imp_of_mem ?_)
  rintro group group' hgroup hgroup' hne ⟨hshard, hsql⟩
  exact hne (DataNode.eq_of hshard
    (Sql.table_eq_of_insertText (hspaces group hgroup) (hspaces group' hgroup') hsql))

theorem RouteUnit.eq_of_equals {a b : RouteUnit} (h : a.equals b = true) :
    a.shard = b.shard ∧ a.sql = b.sql := by
  unfold RouteUnit.equals at h
  rw [Bool.and_eq_true, Bool.and_eq_true] at h
  exact ⟨eq_of_beq h.1.1, eq_of_beq h.1.2⟩

end Units

/-! ## Routed inserts -/

section Routed

variable {W : Type} {r : Router W} {i : Insert} {params : List Datum} {route : Route} {w w' : W}

/-- An insert is routed when it has rows of one length, keys, and units. -/
theorem Insert.steps_of_route {rule : ShardingRule} {source : KeySource W}
    {units : List RouteUnit} {info : Option KeyInfo}
    (h : (i.route rule source params).run w = (.ok (units, info), w')) :
    ¬ i.rows.isEmpty ∧ i.raggedRow? = none ∧
      (i.keys rule source params).run w = (.ok info, w') ∧
      i.units rule params info = .ok units := by
  unfold Insert.route at h
  by_cases hempty : i.rows.isEmpty = true
  · rw [if_pos hempty] at h
    cases h
  · rw [if_neg hempty] at h
    dsimp only at h
    split at h
    · cases h
    · rename_i hragged
      obtain ⟨keys, u, hkeys, h⟩ := Act.exists_of_bind_eq_ok h
      obtain ⟨found, u', hunits, hpure⟩ := Act.exists_of_bind_eq_ok h
      obtain ⟨hpair, rfl⟩ := Act.eq_of_pure hpure
      obtain ⟨hok, rfl⟩ := Act.eq_of_ofExcept hunits
      cases hpair
      exact ⟨hempty, hragged, hkeys, hok⟩

/-- An insert that is routed has rows, keys, and the units of its rows. -/
theorem Insert.units_of_route {rule : ShardingRule} {source : KeySource W}
    {units : List RouteUnit} {info : Option KeyInfo}
    (h : (i.route rule source params).run w = (.ok (units, info), w')) :
    ¬ i.rows.isEmpty ∧ i.Keyed rule source params info w w' ∧
      i.units rule params info = .ok units := by
  obtain ⟨hempty, hragged, hkeys, hunits⟩ := Insert.steps_of_route h
  exact ⟨hempty, Insert.keyed_of_keys hragged hkeys, hunits⟩

/-- A route has the units of its statement, each once. -/
theorem Router.rendered_of_route {s : Statement}
    (h : (r.route s params).run w = (.ok route, w')) :
    ∃ units, (r.rendered s params).run w = (.ok (units, route.keyInfo), w') ∧
      route.units = distinctBy RouteUnit.equals units ∧ route.units ≠ [] ∧
      route.statement = s := by
  unfold Router.route at h
  obtain ⟨⟨units, info⟩, u, hrendered, h⟩ := Act.exists_of_bind_eq_ok h
  dsimp only at h
  split at h
  · cases h
  · rename_i hne
    obtain ⟨rfl, rfl⟩ := Act.eq_of_pure h
    exact ⟨units, hrendered, rfl, hne, rfl⟩

/-- A routed insert has rows of one length, keys, and the units of its rows. -/
theorem Router.insert_of_route (h : (r.route (.insert i) params).run w = (.ok route, w')) :
    ∃ units, ¬ i.rows.isEmpty ∧ i.Keyed r.rule r.keys params route.keyInfo w w' ∧
      i.units r.rule params route.keyInfo = .ok units ∧
      route.units = distinctBy RouteUnit.equals units := by
  obtain ⟨units, hrendered, hdistinct, -⟩ := Router.rendered_of_route h
  obtain ⟨hempty, hkeyed, hunits⟩ := Insert.units_of_route hrendered
  exact ⟨units, hempty, hkeyed, hunits, hdistinct⟩

/-- The rows of a routed insert are those of the statement, each with its own key when keys were
drawn.  They are where they are stored: for a table that is not a broadcast table each row in one
unit, and for a broadcast table all rows in the unit of each node. -/
theorem insert_routed (hroute : (r.route (.insert i) params).run w = (.ok route, w'))
    (hnodes : ∀ t ∈ r.rule.tables, t.nodes.Nodup)
    (hnames : ∀ t ∈ r.rule.tables, ∀ node ∈ t.nodes, ' ' ∉ node.table.toList) :
    ∃ t homeOf, r.rule.table? i.table = some t ∧
      i.Keyed r.rule r.keys params route.keyInfo w w' ∧
      i.Spread r.rule t params route.keyInfo homeOf route.units ∧
      (i.keyedRows route.keyInfo).map (·.values) = i.rows ∧
      (∀ keys, route.keyInfo = some keys → keys.generated = true →
        (i.keyedRows route.keyInfo).map (·.key) = keys.values.map some) ∧
      (r.rule.isBroadcast i.table = false →
        ((nodesOf homeOf (i.keyedRows route.keyInfo)).flatMap
          (rowsOn homeOf (i.keyedRows route.keyInfo))).Perm (i.keyedRows route.keyInfo)) ∧
      (r.rule.isBroadcast i.table = true →
        nodesOf homeOf (i.keyedRows route.keyInfo) = t.nodes ∧
        ∀ node ∈ t.nodes,
          rowsOn homeOf (i.keyedRows route.keyInfo) node = i.keyedRows route.keyInfo) := by
  obtain ⟨units, hrows, hkeyed, hunits, hdistinct⟩ := Router.insert_of_route hroute
  obtain ⟨t, homeOf, ht, htable, hspread⟩ := Insert.spread_of_units hunits hnodes
  rw [distinctBy_eq_self ((Insert.pairwise_units hunits hnames).imp
    fun hdiffer hequals => hdiffer (RouteUnit.eq_of_equals hequals))] at hdistinct
  rw [← hdistinct] at hspread
  refine ⟨t, homeOf, ht, hkeyed, hspread, i.keyedRows_values _, ?_, ?_, ?_⟩
  · intro keys hkeys hdrawn
    rw [hkeys] at hkeyed ⊢
    cases hkeyed with
    | given => cases hdrawn
    | drawn _ _ hlength _ => exact Insert.keyedRows_keys rfl hlength
  · intro hbroadcast
    refine perm_of_singletons (i.keyedRows_nodup _) fun row hrow => ?_
    exact (hspread.home row hrow).exists_eq_singleton hbroadcast
  · intro hbroadcast
    have hall : ∀ row ∈ i.keyedRows route.keyInfo, homeOf row = t.nodes := fun row hrow =>
      (hspread.home row hrow).eq_nodes hbroadcast
    refine ⟨nodesOf_const (Insert.keyedRows_ne_nil hrows) (hnodes t htable) hall, ?_⟩
    intro node hnode
    exact rowsOn_const hall hnode

end Routed

/-- Orders on two shards, spread by their drawn numbers. -/
def orderRouter : Router KeyBank where
  rule := { tables := [{ name := "t_order"
                         nodes := [⟨"ds_0", "t_order_0"⟩, ⟨"ds_1", "t_order_1"⟩]
                         strategy := some ⟨"order_id", .modulo⟩ }] }
  keys := KeyBank.source

/-- Three orders without their numbers. -/
def newOrders : Insert where
  text := "INSERT INTO t_order (user_id, status) VALUES (?, 'new'), (?, 'new'), (7, ?)"
  table := "t_order"
  columns := ["user_id", "status"]
  rows := [[.parameter 0, .literal (.text "new")], [.parameter 1, .literal (.text "new")],
    [.literal (.int64 7), .parameter 2]]
  keyColumn := some "order_id"

/-- The values bound for the question marks of the three orders. -/
def newOrderParams : List Datum :=
  [.int64 5, .int64 6, .text "paid"]

/-- The first and the last order are on one shard, the second one is on the other. -/
def newOrdersRoute : Route where
  statement := .insert newOrders
  units :=
    [{ shard := "ds_1"
       sql := "INSERT INTO t_order_1 (user_id, status, order_id) VALUES (?, 'new', ?), (7, ?, ?)"
       params := [.int64 5, .int64 101, .text "paid", .int64 103] },
     { shard := "ds_0"
       sql := "INSERT INTO t_order_0 (user_id, status, order_id) VALUES (?, 'new', ?)"
       params := [.int64 6, .int64 102] }]
  keyInfo := some ⟨"order_id", [.int64 101, .int64 102, .int64 103], true⟩

theorem insert_routed_orders :
    ∃ t homeOf, orderRouter.rule.table? "t_order" = some t ∧
      newOrders.Keyed orderRouter.rule KeyBank.source newOrderParams newOrdersRoute.keyInfo
        ⟨.increment 101, []⟩ ⟨.increment 104, []⟩ ∧
      newOrders.Spread orderRouter.rule t newOrderParams newOrdersRoute.keyInfo homeOf
        newOrdersRoute.units ∧
      ((nodesOf homeOf (newOrders.keyedRows newOrdersRoute.keyInfo)).flatMap
        (rowsOn homeOf (newOrders.keyedRows newOrdersRoute.keyInfo))).Perm
          (newOrders.keyedRows newOrdersRoute.keyInfo) := by
  have hroute : (orderRouter.route (.insert newOrders) newOrderParams).run ⟨.increment 101, []⟩ =
      (.ok newOrdersRoute, ⟨.increment 104, []⟩) := rfl
  have hnodes : ∀ t ∈ orderRouter.rule.tables, t.nodes.Nodup := by decide
  have hnames : ∀ t ∈ orderRouter.rule.tables, ∀ node ∈ t.nodes, ' ' ∉ node.table.toList := by
    decide
  obtain ⟨t, homeOf, ht, hkeyed, hspread, -, -, hperm, -⟩ := insert_routed hroute hnodes hnames
  exact ⟨t, homeOf, ht, hkeyed, hspread, hperm rfl⟩

end Sharding
