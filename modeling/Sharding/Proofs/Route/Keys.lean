import Sharding.Proofs.Route.Spread

/-!
# Drawn keys in the units of an insert

An insert that does not list its generated column draws a key for each row, and the key goes two
ways: into the key info of the route, and behind the other values of its row in the physical
inserts.  `Insert.Written` says that the two agree, and `Router.writes_of_route` that they do for
every route, whatever the rule and the names of the tables are.

Equal units run once.  So a row is in a unit of the route, or in one that is equal to a unit of it.
-/

namespace Sharding

variable {row r : InsertRow} {node n : DataNode}

/-! ## Rows of groups -/

/-- The row is among the rows of the node. -/
def InGroups (groups : List (DataNode × List InsertRow)) (node : DataNode) (row : InsertRow) :
    Prop :=
  ∃ rows, (node, rows) ∈ groups ∧ row ∈ rows

theorem inGroups_cons {rows : List InsertRow} {groups : List (DataNode × List InsertRow)} :
    InGroups ((n, rows) :: groups) node row ↔ node = n ∧ row ∈ rows ∨ InGroups groups node row := by
  unfold InGroups
  simp only [List.mem_cons, Prod.mk.injEq]
  constructor
  · rintro ⟨rows', ⟨rfl, rfl⟩ | hgroup, hrow⟩
    · exact .inl ⟨rfl, hrow⟩
    · exact .inr ⟨rows', hgroup, hrow⟩
  · rintro (⟨rfl, hrow⟩ | ⟨rows', hgroup, hrow⟩)
    · exact ⟨rows, .inl ⟨rfl, rfl⟩, hrow⟩
    · exact ⟨rows', .inr hgroup, hrow⟩

theorem inGroups_addToNode {groups : List (DataNode × List InsertRow)} :
    InGroups (addToNode row node groups) n r ↔ InGroups groups n r ∨ n = node ∧ r = row := by
  induction groups with
  | nil =>
    rw [addToNode, inGroups_cons, List.mem_singleton]
    exact or_comm
  | cons group groups ih =>
    obtain ⟨m, rows⟩ := group
    rw [addToNode]
    by_cases hm : m = node
    · rw [if_pos hm, inGroups_cons, inGroups_cons, List.mem_append, List.mem_singleton, hm]
      tauto
    · rw [if_neg hm, inGroups_cons, inGroups_cons, ih, or_assoc]

theorem inGroups_foldl {nodes : List DataNode} {groups : List (DataNode × List InsertRow)} :
    InGroups (nodes.foldl (fun groups node => addToNode row node groups) groups) n r ↔
      InGroups groups n r ∨ n ∈ nodes ∧ r = row := by
  induction nodes generalizing groups with
  | nil => simp
  | cons first nodes ih =>
    rw [List.foldl_cons, ih, inGroups_addToNode, List.mem_cons]
    tauto

/-- A row is in the groups of its nodes. -/
theorem inGroups_groupByNode {placed : List (InsertRow × List DataNode)} :
    InGroups (groupByNode placed) node row ↔ ∃ home, (row, home) ∈ placed ∧ node ∈ home := by
  induction placed using List.reverseRecOn with
  | nil => simp [groupByNode, InGroups]
  | append_singleton placed pair ih =>
    obtain ⟨last, home⟩ := pair
    rw [groupByNode, List.foldl_append, List.foldl_cons, List.foldl_nil, inGroups_foldl,
      show List.foldl _ _ placed = groupByNode placed from rfl, ih]
    constructor
    · rintro (⟨home', hmem, hnode⟩ | ⟨hnode, rfl⟩)
      · exact ⟨home', List.mem_append_left _ hmem, hnode⟩
      · exact ⟨home, List.mem_append_right _ (List.mem_singleton_self _), hnode⟩
    · rintro ⟨home', hmem, hnode⟩
      rw [List.mem_append, List.mem_singleton, Prod.mk.injEq] at hmem
      rcases hmem with hmem | ⟨rfl, rfl⟩
      · exact .inl ⟨home', hmem, hnode⟩
      · exact .inr ⟨hnode, rfl⟩

/-! ## Units and their rows -/

/-- The unit is the physical insert of some rows of an insert, and each of its question marks has
its value. -/
structure Insert.UnitOf (i : Insert) (params : List Datum) (info : Option KeyInfo)
    (unit : RouteUnit) (rows : List InsertRow) : Prop where
  text : ∃ node, unit = physicalInsert (i.fullColumns info) params node rows
  subset : rows ⊆ i.keyedRows info
  marked : ∀ row ∈ rows, row.Marked params

section Units

variable {rule : ShardingRule} {i : Insert} {params : List Datum} {info : Option KeyInfo}
  {units : List RouteUnit}

/-- Units are those of rows, and every row is in one. -/
theorem Insert.unitOf_of_units (h : i.units rule params info = .ok units) :
    (∀ unit ∈ units, ∃ rows, i.UnitOf params info unit rows) ∧
      ∀ row ∈ i.keyedRows info,
        ∃ unit ∈ units, ∃ rows, i.UnitOf params info unit rows ∧ row ∈ rows := by
  unfold Insert.units at h
  obtain ⟨all, hall, h⟩ := exists_of_bind_eq_ok h
  obtain ⟨placed, hplaced, hgroups⟩ := exists_of_bind_eq_ok h
  obtain ⟨t, ht, rfl, hne⟩ := ShardingRule.table_of_dataNodes (eq_ok_of_mapError hall)
  replace hgroups := eq_ok_of_mapError hgroups
  have hrows : ∀ pair ∈ placed, pair.1 ∈ i.keyedRows info := by
    intro pair hpair
    obtain ⟨row, hrow, hplace⟩ := exists_of_mem_mapM hplaced hpair
    obtain ⟨home, _, hplace⟩ := exists_of_bind_eq_ok hplace
    cases hplace
    exact hrow
  have hunit : ∀ group ∈ groupByNode placed, ∀ unit,
      insertUnit (i.fullColumns info) params group.1 group.2 = .ok unit →
        i.UnitOf params info unit group.2 := by
    intro group hgroup unit hinsert
    obtain ⟨htext, hmarked⟩ := insertUnit_eq hinsert
    refine ⟨⟨group.1, htext⟩, fun row hrow => ?_, hmarked⟩
    obtain ⟨home, hpair, -⟩ := inGroups_groupByNode.1 ⟨group.2, hgroup, hrow⟩
    exact hrows _ hpair
  constructor
  · intro unit hmem
    obtain ⟨group, hgroup, hinsert⟩ := exists_of_mem_mapM hgroups hmem
    exact ⟨group.2, hunit group hgroup unit hinsert⟩
  · intro row hrow
    -- the row has a home, and the unit of that node has the row
    obtain ⟨pair, hpair⟩ := exists_of_mapM hplaced hrow
    have hmem := mem_of_mapM hplaced hrow hpair
    obtain ⟨home, hhome, hplace⟩ := exists_of_bind_eq_ok hpair
    cases hplace
    obtain ⟨node, hnode⟩ := List.exists_mem_of_ne_nil _
      ((InsertRow.home_of_nodes ht hhome).ne_nil hne)
    obtain ⟨rows, hgroup, hin⟩ := inGroups_groupByNode.2 ⟨home, hmem, hnode⟩
    obtain ⟨unit, hinsert⟩ := exists_of_mapM hgroups hgroup
    exact ⟨unit, mem_of_mapM hgroups hgroup hinsert, rows, hunit _ hgroup unit hinsert, hin⟩

end Units

/-! ## Keys and their rows -/

/-- The keys are those of the rows, in row order, and the units write each row with its key: behind
the other values of the row stands a question mark, and the key is bound for it. -/
structure Insert.Written (i : Insert) (params : List Datum) (column : String) (keys : List Datum)
    (units : List RouteUnit) : Prop where
  length : keys.length = i.rows.length
  bound : ∀ row ∈ i.keyedRows (some ⟨column, keys, true⟩), ∃ key,
    keys[row.position]? = some key ∧
      (row.written params)[i.columns.length]? = some ("?", some key)
  /-- Every row is in a unit, or in one that is equal to a unit and so is not run itself. -/
  row : ∀ row ∈ i.keyedRows (some ⟨column, keys, true⟩), ∃ unit rows,
    i.UnitOf params (some ⟨column, keys, true⟩) unit rows ∧ row ∈ rows ∧
      ∃ u ∈ units, u = unit ∨ u.equals unit = true
  unit : ∀ unit ∈ units, ∃ rows, i.UnitOf params (some ⟨column, keys, true⟩) unit rows

section Keys

variable {i : Insert} {params : List Datum} {column : String} {keys : List Datum}

theorem Insert.mem_keyedRows (h : row ∈ i.keyedRows (some ⟨column, keys, true⟩)) :
    i.rows[row.position]? = some row.values ∧ row.key = keys[row.position]? := by
  obtain ⟨⟨values, position⟩, hmem, rfl⟩ := List.mem_map.1 h
  exact ⟨List.mem_zipIdx_iff_getElem?.1 hmem, rfl⟩

/-- Behind as many values as there are columns comes the key. -/
theorem Insert.written_key (hlength : keys.length = i.rows.length)
    (hrows : ∀ row ∈ i.rows, row.length = i.columns.length)
    (h : row ∈ i.keyedRows (some ⟨column, keys, true⟩)) :
    ∃ key, keys[row.position]? = some key ∧
      (row.written params)[i.columns.length]? = some ("?", some key) := by
  obtain ⟨hvalues, hkey⟩ := Insert.mem_keyedRows h
  obtain ⟨hlt, -⟩ := List.getElem?_eq_some_iff.1 hvalues
  have hfound := List.getElem?_eq_getElem (hlength ▸ hlt)
  refine ⟨_, hfound, ?_⟩
  have hwidth : (row.values.map (Operand.written params)).length = i.columns.length := by
    rw [List.length_map]
    exact hrows _ (List.mem_of_getElem? hvalues)
  rw [InsertRow.written, hkey, hfound, ← hwidth]
  exact List.getElem?_concat_length

variable {W : Type} {r : Router W} {route : Route} {w w' : W}

/-- A route that writes an insert with the keys that are in its key info. -/
structure Route.Writes (route : Route) (i : Insert) (params : List Datum) (column : String)
    (keys : List Datum) : Prop where
  statement : route.statement = .insert i
  keyInfo : route.keyInfo = some ⟨column, keys, true⟩
  units_ne_nil : route.units ≠ []
  written : i.Written params column keys route.units

/-- Routing draws the keys of an insert without its generated column, and writes them. -/
theorem Router.writes_of_route (hcolumn : i.keyColumn = some column)
    (hlisted : i.columnPosition? column = none)
    (h : (r.route (.insert i) params).run w = (.ok route, w')) :
    ∃ keys, route.Writes i params column keys ∧
      r.keys.Draws (r.rule.generator? i.table) w keys w' := by
  obtain ⟨units, hrendered, hdistinct, hne, hstatement⟩ := Router.rendered_of_route h
  obtain ⟨-, hragged, hkeys, hunits⟩ := Insert.steps_of_route hrendered
  have hkeyed := Insert.keyed_of_keys hragged hkeys
  have hrows := Insert.length_of_raggedRow? hragged
  generalize hinfo : route.keyInfo = info at hkeyed hunits
  cases hkeyed with
  | none hnone =>
    rw [hcolumn] at hnone
    cases hnone
  | given hsome hposition =>
    rw [hcolumn] at hsome
    cases hsome
    rw [hlisted] at hposition
    cases hposition
  | drawn hsome _ hlength hdraws =>
    rw [hcolumn] at hsome
    cases hsome
    obtain ⟨hunit, hrow⟩ := Insert.unitOf_of_units hunits
    refine ⟨_, ⟨hstatement, hinfo, hne, hlength, ?_, ?_, ?_⟩, hdraws⟩
    · intro row hmem
      exact Insert.written_key hlength hrows hmem
    · intro row hmem
      obtain ⟨unit, hmem', rows, hof, hin⟩ := hrow row hmem
      rw [hdistinct]
      exact ⟨unit, rows, hof, hin, exists_kept_distinctBy hmem'⟩
    · rw [hdistinct]
      exact fun unit hmem => hunit unit ((distinctFrom_sublist _ _ _).subset hmem)

end Keys

end Sharding
