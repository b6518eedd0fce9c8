import Sharding.Proofs.Route.Spread

/-!
# Finding stored rows

A query is routed to the nodes that each of its conditions on the sharding column hits, and an
insert stores a row on the node at the slot of its sharding value.

* `ColumnTest.Admits` says that an integer passes a test, and `ColumnTest.Names` that a test asks
  for a value by name.  What such tests hit includes the node of the value
  (`ColumnTest.Admits.mem_route`, `ColumnTest.Names.mem_route`).
* `ShardingRule.mem_nodesFor` carries a node through any number of conditions.
* `InsertRow.found_of_hits` puts both sides together: a row is stored where a query is routed all of
  whose conditions hit the node of the row's value.

Integers are found by every condition that holds of them.  Other values are found by the values they
are equal to only where both are of one form, since a slot hangs on the form a value is given in.
-/

namespace Sharding

/-! ## Conditions -/

/-- An integer passes a test on its column: it is equal to the given integer, or to one in a list,
or it lies between the bounds of a range.  A bound that is missing or is no integer does not
bound. -/
def ColumnTest.Admits (params : List Datum) (x : Int64) : ColumnTest → Prop
  | equal v => ∃ d, v.resolve params = .ok d ∧ d.toInt64? = some x
  | oneOf vs => ∃ v ∈ vs, ∃ d, v.resolve params = .ok d ∧ d.toInt64? = some x
  | between lower upper =>
    (∀ v ∈ lower, ∀ d lo, v.resolve params = .ok d → d.toInt64? = some lo →
      lo.toInt ≤ x.toInt) ∧
    (∀ v ∈ upper, ∀ d hi, v.resolve params = .ok d → d.toInt64? = some hi →
      x.toInt ≤ hi.toInt)

/-- A resolved bound comes from an operand. -/
theorem exists_of_bound {params : List Datum} {bound : Option Operand} {d : Option Datum}
    {n : Int64} (h : bound.mapM (Operand.resolve params) = .ok d)
    (hn : d.bind Datum.toInt64? = some n) :
    ∃ v ∈ bound, ∃ d, v.resolve params = .ok d ∧ d.toInt64? = some n := by
  cases bound with
  | none =>
    cases h
    cases hn
  | some v =>
    rw [Option.mapM_some] at h
    cases hv : v.resolve params with
    | error e =>
      rw [hv] at h
      cases h
    | ok value =>
      rw [hv] at h
      cases h
      exact ⟨v, rfl, value, hv, hn⟩

/-- A test names a value: it asks for the value itself, or for one of a list with the value. -/
def ColumnTest.Names (params : List Datum) (d : Datum) : ColumnTest → Prop
  | equal v => v.resolve params = .ok d
  | oneOf vs => ∃ v ∈ vs, v.resolve params = .ok d
  | between _ _ => False

section Tests

variable {t : TableRule} {s : Strategy} {params : List Datum} {value d : Datum} {x : Int64}
  {test : ColumnTest} {wanted : ShardingValue} {node : DataNode} {nodes : List DataNode}

/-- What a test hits includes the node of every value with the code of one that it names. -/
theorem ColumnTest.Names.mem_route (hnames : test.Names params d) (hs : t.strategy = some s)
    (hcode : s.algorithm.code d = s.algorithm.code value)
    (hresolve : test.resolve params = .ok wanted) (hroute : t.route wanted = .ok nodes)
    (hplaces : t.Places s value node) : node ∈ nodes := by
  cases test with
  | equal v =>
    obtain ⟨d', hd', hlist⟩ := exists_of_bind_eq_ok hresolve
    have hd : d ∈ [d'] := by
      cases hnames.symm.trans hd'
      exact List.mem_cons_self
    cases hlist
    exact TableRule.mem_route_list hs hroute hd hcode hplaces
  | oneOf vs =>
    obtain ⟨v, hv, hd⟩ := hnames
    obtain ⟨values, hvalues, hlist⟩ := exists_of_bind_eq_ok hresolve
    cases hlist
    exact TableRule.mem_route_list hs hroute (mem_of_mapM hvalues hv hd) hcode hplaces
  | between lower upper => exact hnames.elim

/-- What a test that an integer passes hits includes the node of the integer. -/
theorem ColumnTest.Admits.mem_route (hadmits : test.Admits params x) (hs : t.strategy = some s)
    (hx : value.toInt64? = some x) (hresolve : test.resolve params = .ok wanted)
    (hroute : t.route wanted = .ok nodes) (hplaces : t.Places s value node) : node ∈ nodes := by
  have hcode : ∀ {d : Datum}, d.toInt64? = some x →
      s.algorithm.code d = s.algorithm.code value := fun hd => s.algorithm.code_ints hd hx
  cases test with
  | equal v =>
    obtain ⟨d, hd, hdx⟩ := hadmits
    have hnames : (ColumnTest.equal v).Names params d := hd
    exact hnames.mem_route hs (hcode hdx) hresolve hroute hplaces
  | oneOf vs =>
    obtain ⟨v, hv, d, hd, hdx⟩ := hadmits
    have hnames : (ColumnTest.oneOf vs).Names params d := ⟨v, hv, hd⟩
    exact hnames.mem_route hs (hcode hdx) hresolve hroute hplaces
  | between lower upper =>
    obtain ⟨lo, hlo, hresolve⟩ := exists_of_bind_eq_ok hresolve
    obtain ⟨hi, hhi, hrange⟩ := exists_of_bind_eq_ok hresolve
    cases hrange
    refine TableRule.mem_route_range hs hroute hx (fun n hn => ?_) (fun n hn => ?_) hplaces
    · obtain ⟨v, hv, d, hd, hdn⟩ := exists_of_bound hlo hn
      exact hadmits.1 v hv d n hd hdn
    · obtain ⟨v, hv, d, hd, hdn⟩ := exists_of_bound hhi hn
      exact hadmits.2 v hv d n hd hdn

end Tests

/-! ## Nodes of a query -/

namespace ShardingRule

variable {r : ShardingRule} {t : TableRule} {table : String} {conditions : List Condition}
  {params : List Datum} {start nodes : List DataNode} {node : DataNode}

/-- A condition leaves the nodes that its values hit. -/
theorem exists_of_narrow {c : Condition} (h : r.narrow table params start c = .ok nodes) :
    ∃ wanted hit, c.test.resolve params = .ok wanted ∧ r.route table wanted = .ok hit ∧
      nodes = start.filter (· ∈ hit) := by
  unfold narrow at h
  obtain ⟨wanted, hwanted, h⟩ := exists_of_bind_eq_ok h
  obtain ⟨hit, hhit, h⟩ := exists_of_bind_eq_ok h
  cases h
  exact ⟨wanted, hit, hwanted, hhit, rfl⟩

/-- Conditions only take nodes away. -/
theorem sublist_of_narrows (h : conditions.foldlM (r.narrow table params) start = .ok nodes) :
    nodes.Sublist start := by
  induction conditions generalizing start with
  | nil =>
    cases h
    exact List.Sublist.refl _
  | cons c conditions ih =>
    rw [List.foldlM_cons] at h
    obtain ⟨left, hleft, h⟩ := exists_of_bind_eq_ok h
    obtain ⟨_, hit, _, _, rfl⟩ := exists_of_narrow hleft
    exact (ih h).trans List.filter_sublist

/-- A node that every condition hits is left. -/
theorem mem_of_narrows (h : conditions.foldlM (r.narrow table params) start = .ok nodes)
    (hnode : node ∈ start)
    (hhit : ∀ c ∈ conditions, ∀ wanted hit, c.test.resolve params = .ok wanted →
      r.route table wanted = .ok hit → node ∈ hit) : node ∈ nodes := by
  induction conditions generalizing start with
  | nil =>
    cases h
    exact hnode
  | cons c conditions ih =>
    rw [List.foldlM_cons] at h
    obtain ⟨left, hleft, h⟩ := exists_of_bind_eq_ok h
    obtain ⟨wanted, hit, hwanted, hroute, rfl⟩ := exists_of_narrow hleft
    refine ih h (List.mem_filter.2 ⟨hnode, ?_⟩) fun c hc => hhit c (List.mem_cons_of_mem _ hc)
    exact decide_eq_true (hhit c List.mem_cons_self wanted hit hwanted hroute)

/-- The nodes of a query are all nodes of the table, or those that the conditions on its sharding
column leave. -/
theorem nodesFor_eq_ok_iff : r.nodesFor table conditions params = .ok nodes ↔
    ∃ t, r.table? table = some t ∧ t.nodes ≠ [] ∧
      (nodes = t.nodes ∧ (r.isBroadcast table = true ∨ t.strategy = none) ∨
        r.isBroadcast table = false ∧ nodes ≠ [] ∧ ∃ s, t.strategy = some s ∧
          (conditions.filter fun c => sameName c.table table && sameName c.column s.column).foldlM
            (r.narrow table params) t.nodes = .ok nodes) := by
  unfold nodesFor
  constructor
  · intro h
    obtain ⟨all, hall, h⟩ := exists_of_bind_eq_ok h
    obtain ⟨t, ht, rfl, hne⟩ := table_of_dataNodes hall
    refine ⟨t, ht, hne, ?_⟩
    rw [shardingColumn?_eq ht] at h
    by_cases hbroadcast : r.isBroadcast table = true
    · rw [if_pos hbroadcast] at h
      cases h
      exact .inl ⟨rfl, .inl hbroadcast⟩
    · rw [if_neg hbroadcast] at h
      cases hs : t.strategy with
      | none =>
        rw [hs] at h
        cases h
        exact .inl ⟨rfl, .inr rfl⟩
      | some s =>
        rw [hs] at h
        obtain ⟨left, hleft, h⟩ := exists_of_bind_eq_ok h
        split at h
        · cases h
        · rename_i hempty
          cases h
          refine .inr ⟨Bool.eq_false_iff.2 hbroadcast, ?_, s, rfl, hleft⟩
          exact fun hnil => hempty (List.isEmpty_iff.2 hnil)
  · rintro ⟨t, ht, hne, hcases⟩
    rw [dataNodes_eq ht hne, shardingColumn?_eq ht]
    show (if r.isBroadcast table then Except.ok t.nodes else _) = _
    rcases hcases with ⟨rfl, hbroadcast | hs⟩ | ⟨hbroadcast, hleft, s, hs, hfold⟩
    · rw [if_pos hbroadcast]
    · rw [hs]
      split <;> rfl
    · rw [if_neg (by rw [hbroadcast]; exact Bool.false_ne_true), hs]
      dsimp only [Option.map_some]
      rw [hfold]
      exact if_neg fun hempty => hleft (List.isEmpty_iff.1 hempty)

/-- The nodes of a query are nodes of the table. -/
theorem exists_of_nodesFor (h : r.nodesFor table conditions params = .ok nodes) :
    ∃ t, r.table? table = some t ∧ t.nodes ≠ [] ∧ nodes.Sublist t.nodes ∧
      (r.isBroadcast table = true → nodes = t.nodes) := by
  obtain ⟨t, ht, hne, hcases⟩ := nodesFor_eq_ok_iff.1 h
  refine ⟨t, ht, hne, ?_⟩
  rcases hcases with ⟨rfl, -⟩ | ⟨hbroadcast, -, s, -, hfold⟩
  · exact ⟨List.Sublist.refl _, fun _ => rfl⟩
  · refine ⟨sublist_of_narrows hfold, fun hyes => ?_⟩
    rw [hbroadcast] at hyes
    cases hyes

/-- A table has the same nodes under every spelling of its name. -/
theorem nodesFor_congr {name : String} (hname : sameName name table = true)
    (h : r.nodesFor name conditions params = .ok nodes) :
    r.nodesFor table conditions params = .ok nodes := by
  have hnarrow : r.narrow name params = r.narrow table params := by
    obtain ⟨t, ht, -⟩ := exists_of_nodesFor h
    have ht' : r.table? table = some t := (table?_congr hname).symm.trans ht
    funext nodes c
    unfold narrow
    simp only [route_eq ht, route_eq ht']
  rw [nodesFor_eq_ok_iff] at h ⊢
  simpa only [sameName_congr hname, hnarrow, table?_congr hname, isBroadcast_congr hname] using h

/-- A node of the table that every condition on the sharding column hits is a node of the query. -/
theorem mem_nodesFor {s : Strategy} (ht : r.table? table = some t) (hs : t.strategy = some s)
    (h : r.nodesFor table conditions params = .ok nodes) (hnode : node ∈ t.nodes)
    (hhit : ∀ c ∈ conditions, sameName c.table table = true → sameName c.column s.column = true →
      ∀ wanted hit, c.test.resolve params = .ok wanted → t.route wanted = .ok hit →
        node ∈ hit) : node ∈ nodes := by
  obtain ⟨t', ht', -, hcases⟩ := nodesFor_eq_ok_iff.1 h
  cases ht.symm.trans ht'
  rcases hcases with ⟨rfl, -⟩ | ⟨-, -, s', hs', hfold⟩
  · exact hnode
  · cases hs.symm.trans hs'
    refine mem_of_narrows hfold hnode fun c hc wanted hit hwanted hroute => ?_
    obtain ⟨hc, hsame⟩ := List.mem_filter.1 hc
    rw [Bool.and_eq_true] at hsame
    rw [route_eq ht] at hroute
    exact hhit c hc hsame.1 hsame.2 wanted hit hwanted hroute

/-- A statement over one table runs on each of its nodes. -/
theorem targets_singleton (h : r.nodesFor table conditions params = .ok nodes) :
    r.targets [table] conditions params =
      .ok (nodes.map fun node => ⟨node.shard, [(table, node.table)]⟩) := by
  unfold targets
  rw [List.mapM_cons, h]
  rfl

end ShardingRule

/-! ## Inserts and queries -/

/-- A row whose sharding value is not NULL is stored on the node of the value; a row of a broadcast
table is stored on all nodes. -/
theorem InsertRow.nodes_of_value {r : ShardingRule} {t : TableRule} {s : Strategy}
    {table : String} {row : InsertRow} {given : List Datum} {columns : List String} {column : Nat}
    {value : Datum} {node : DataNode} (ht : r.table? table = some t) (hs : t.strategy = some s)
    (hcolumn : columns.findIdx? (sameName · s.column) = some column)
    (hvalue : row.value table given column = .ok value) (hnull : value.isNull = false)
    (hplaces : t.Places s value node) :
    row.nodes r table given t.nodes ((r.shardingColumn? table).bind fun name =>
        columns.findIdx? (sameName · name)) =
      .ok (if r.isBroadcast table then t.nodes else [node]) := by
  have hroute : r.route table (.list [value]) = .ok [node] := by
    rw [ShardingRule.route_eq ht]
    exact hplaces.route hs hnull
  unfold InsertRow.nodes
  by_cases hbroadcast : r.isBroadcast table = true
  · rw [if_pos hbroadcast, if_pos hbroadcast]
  · rw [if_neg hbroadcast, if_neg hbroadcast, ShardingRule.shardingColumn?_eq ht, hs,
      Option.map_some, Option.bind_some, hcolumn]
    dsimp only
    rw [hvalue]
    show ((r.route table (.list [value])).mapError Error.routing >>= _) = _
    rw [hroute]
    rfl

section Finding

variable {r : ShardingRule} {t : TableRule} {s : Strategy} {name table : String} {row : InsertRow}
  {given params : List Datum} {columns : List String} {column : Nat} {value : Datum} {x : Int64}
  {conditions : List Condition} {nodes : List DataNode}

/-- A row is stored where a query over its table is routed, if every condition on the sharding
column hits the node of the row's value. -/
theorem InsertRow.found_of_hits (ht : r.table? table = some t) (hs : t.strategy = some s)
    (hname : sameName name table = true)
    (hcolumn : columns.findIdx? (sameName · s.column) = some column)
    (hvalue : row.value name given column = .ok value) (hnull : value.isNull = false)
    (hhit : ∀ c ∈ conditions, sameName c.table table = true → sameName c.column s.column = true →
      ∀ wanted hit node, c.test.resolve params = .ok wanted → t.route wanted = .ok hit →
        t.Places s value node → node ∈ hit)
    (hnodes : r.nodesFor table conditions params = .ok nodes) :
    ∃ home targets,
      row.nodes r name given t.nodes ((r.shardingColumn? name).bind fun c =>
        columns.findIdx? (sameName · c)) = .ok home ∧
      home ≠ [] ∧ (r.isBroadcast name = false → ∃ node, home = [node]) ∧
      home ⊆ nodes ∧
      r.targets [table] conditions params = .ok targets ∧
      ∀ node ∈ home, ⟨node.shard, [(table, node.table)]⟩ ∈ targets := by
  obtain ⟨t', ht', hne, -, hall⟩ := ShardingRule.exists_of_nodesFor hnodes
  cases ht.symm.trans ht'
  obtain ⟨node, hplaces⟩ := TableRule.exists_places s hne value
  have hhome := InsertRow.nodes_of_value ((ShardingRule.table?_congr hname).trans ht) hs hcolumn
    hvalue hnull hplaces
  have hnode : node ∈ nodes := by
    refine ShardingRule.mem_nodesFor ht hs hnodes hplaces.mem ?_
    intro c hc htable hsharding wanted hit hwanted hroute
    exact hhit c hc htable hsharding wanted hit node hwanted hroute hplaces
  have hsubset : (if r.isBroadcast name then t.nodes else [node]) ⊆ nodes := by
    split
    · rename_i hbroadcast
      rw [ShardingRule.isBroadcast_congr hname] at hbroadcast
      exact (hall hbroadcast).symm ▸ List.Subset.refl _
    · exact List.cons_subset.2 ⟨hnode, List.nil_subset _⟩
  refine ⟨_, _, hhome, ?_, ?_, hsubset, ShardingRule.targets_singleton hnodes, ?_⟩
  · split
    · exact hne
    · exact List.cons_ne_nil _ _
  · intro hbroadcast
    rw [hbroadcast]
    exact ⟨node, rfl⟩
  · intro found hfound
    exact List.mem_map.2 ⟨found, hsubset hfound, rfl⟩

/-- A query finds what an insert stored.  When an integer passes every condition on the sharding
column, an insert of the integer succeeds in finding its node, or all nodes of a broadcast table,
and the query is routed there. -/
theorem lookup_finds_insert (ht : r.table? table = some t) (hs : t.strategy = some s)
    (hname : sameName name table = true)
    (hcolumn : columns.findIdx? (sameName · s.column) = some column)
    (hvalue : row.value name given column = .ok value) (hx : value.toInt64? = some x)
    (hconditions : ∀ c ∈ conditions, sameName c.table table = true →
      sameName c.column s.column = true → c.test.Admits params x)
    (hnodes : r.nodesFor table conditions params = .ok nodes) :
    ∃ home targets,
      row.nodes r name given t.nodes ((r.shardingColumn? name).bind fun c =>
        columns.findIdx? (sameName · c)) = .ok home ∧
      home ≠ [] ∧ (r.isBroadcast name = false → ∃ node, home = [node]) ∧
      home ⊆ nodes ∧
      r.targets [table] conditions params = .ok targets ∧
      ∀ node ∈ home, ⟨node.shard, [(table, node.table)]⟩ ∈ targets := by
  refine InsertRow.found_of_hits ht hs hname hcolumn hvalue (Datum.isNull_of_toInt64? hx) ?_ hnodes
  intro c hc htable hsharding wanted hit node hwanted hroute hplaces
  exact (hconditions c hc htable hsharding).mem_route hs hx hwanted hroute hplaces

end Finding

/-- Users on three nodes, spread by their numbers. -/
def userTable : TableRule where
  name := "t_user"
  nodes := [⟨"ds_0", "t_user_0"⟩, ⟨"ds_1", "t_user_1"⟩, ⟨"ds_0", "t_user_2"⟩]
  strategy := some ⟨"id", .modulo⟩

/-- The rule of users. -/
def userRule : ShardingRule where
  tables := [userTable]

/-- Conditions that the number -7 passes, besides one on another column. -/
def userConditions : List Condition :=
  [⟨"T_USER", "ID", .between (some (.literal (.int64 (-8)))) (some (.parameter 0))⟩,
   ⟨"t_user", "id", .oneOf [.literal (.int32 4), .literal (.int32 (-7))]⟩,
   ⟨"t_user", "name", .equal (.literal (.text "ann"))⟩]

/-- The new user with the number -7. -/
def newUser : InsertRow where
  position := 0
  values := [.literal (.text "ann"), .parameter 0]
  key := none

/-- The user with the number -7 is stored on the last node, and looked for on the last two. -/
theorem lookup_finds_insert_user :
    ∃ home targets,
      newUser.nodes userRule "T_user" [.int64 (-7)] userTable.nodes
        ((userRule.shardingColumn? "T_user").bind fun c =>
          ["name", "Id"].findIdx? (sameName · c)) = .ok home ∧
      home ≠ [] ∧ (userRule.isBroadcast "T_user" = false → ∃ node, home = [node]) ∧
      home ⊆ [⟨"ds_1", "t_user_1"⟩, ⟨"ds_0", "t_user_2"⟩] ∧
      userRule.targets ["t_user"] userConditions [.int64 (-7)] = .ok targets ∧
      ∀ node ∈ home, ⟨node.shard, [("t_user", node.table)]⟩ ∈ targets := by
  have hcolumn : ["name", "Id"].findIdx? (sameName · "id") = some 1 := by decide
  have hvalue : newUser.value "T_user" [.int64 (-7)] 1 = .ok (.int64 (-7)) := rfl
  have hnodes : userRule.nodesFor "t_user" userConditions [.int64 (-7)] =
      .ok [⟨"ds_1", "t_user_1"⟩, ⟨"ds_0", "t_user_2"⟩] := rfl
  have hadmits : ∀ c ∈ userConditions, sameName c.table "t_user" = true →
      sameName c.column "id" = true → c.test.Admits [.int64 (-7)] (-7) := by
    intro c hc _ hname
    rcases List.mem_cons.1 hc with rfl | hc
    · constructor
      · rintro v ⟨⟩ d lo hd hlo
        cases hd
        cases hlo
        decide
      · rintro v ⟨⟩ d hi hd hhi
        cases hd
        cases hhi
        decide
    · rcases List.mem_cons.1 hc with rfl | hc
      · exact ⟨.literal (.int32 (-7)), by decide, .int32 (-7), rfl, rfl⟩
      · cases List.mem_singleton.1 hc
        exact absurd hname (by decide)
  exact lookup_finds_insert (t := userTable) (s := ⟨"id", .modulo⟩) rfl rfl (by decide) hcolumn
    hvalue rfl hadmits hnodes

/-! ## Equal values -/

section Equal

variable {r : ShardingRule} {t : TableRule} {s : Strategy} {name table : String} {row : InsertRow}
  {given params : List Datum} {columns : List String} {column : Nat}
  {conditions : List Condition} {nodes : List DataNode}

/-- Equal values are stored on one node if they are of one form, or hashed and of one text: a row
with the one value is stored where a query that names the other is routed. -/
theorem equal_values_meet {a b : Datum} (hequal : a.equals b = true)
    (hform : a.SameForm b ∨ s.algorithm = .hash ∧ a.display = b.display)
    (ht : r.table? table = some t) (hs : t.strategy = some s)
    (hname : sameName name table = true)
    (hcolumn : columns.findIdx? (sameName · s.column) = some column)
    (hvalue : row.value name given column = .ok a)
    (hconditions : ∀ c ∈ conditions, sameName c.table table = true →
      sameName c.column s.column = true → c.test.Names params b)
    (hnodes : r.nodesFor table conditions params = .ok nodes) :
    (∃ node, t.route (.list [a]) = .ok [node] ∧ t.route (.list [b]) = .ok [node]) ∧
    ∃ home targets,
      row.nodes r name given t.nodes ((r.shardingColumn? name).bind fun c =>
        columns.findIdx? (sameName · c)) = .ok home ∧
      home ≠ [] ∧ (r.isBroadcast name = false → ∃ node, home = [node]) ∧
      home ⊆ nodes ∧
      r.targets [table] conditions params = .ok targets ∧
      ∀ node ∈ home, ⟨node.shard, [(table, node.table)]⟩ ∈ targets := by
  obtain ⟨hleft, hright⟩ := Datum.isNull_of_equals hequal
  have hcode : s.algorithm.code a = s.algorithm.code b := by
    rcases hform with hform | ⟨halgorithm, hdisplay⟩
    · exact hform.code_eq hequal s.algorithm
    · rw [halgorithm]
      exact Algorithm.code_hash hdisplay
  constructor
  · obtain ⟨t', ht', hne, -⟩ := ShardingRule.exists_of_nodesFor hnodes
    cases ht.symm.trans ht'
    obtain ⟨node, hplaces⟩ := TableRule.exists_places s hne a
    exact ⟨node, hplaces.route hs hleft, (hplaces.of_code hcode).route hs hright⟩
  · refine InsertRow.found_of_hits ht hs hname hcolumn hvalue hleft ?_ hnodes
    intro c hc htable hsharding wanted hit node hwanted hroute hplaces
    exact (hconditions c hc htable hsharding).mem_route hs hcode.symm hwanted hroute hplaces

end Equal

/-- The number -7 as an integer of 32 bits is found by the same integer of 64 bits. -/
theorem equal_values_meet_user :
    (∃ node, userTable.route (.list [.int32 (-7)]) = .ok [node] ∧
      userTable.route (.list [.int64 (-7)]) = .ok [node]) ∧
    ∃ home targets,
      newUser.nodes userRule "t_user" [.int32 (-7)] userTable.nodes
        ((userRule.shardingColumn? "t_user").bind fun c =>
          ["name", "id"].findIdx? (sameName · c)) = .ok home ∧
      home ≠ [] ∧ (userRule.isBroadcast "t_user" = false → ∃ node, home = [node]) ∧
      home ⊆ [⟨"ds_0", "t_user_2"⟩] ∧
      userRule.targets ["t_user"] [⟨"t_user", "id", .equal (.parameter 0)⟩] [.int64 (-7)] =
        .ok targets ∧
      ∀ node ∈ home, ⟨node.shard, [("t_user", node.table)]⟩ ∈ targets := by
  have hcolumn : ["name", "id"].findIdx? (sameName · "id") = some 1 := by decide
  have hvalue : newUser.value "t_user" [.int32 (-7)] 1 = .ok (.int32 (-7)) := rfl
  have hnames : ∀ c ∈ [(⟨"t_user", "id", .equal (.parameter 0)⟩ : Condition)],
      sameName c.table "t_user" = true → sameName c.column "id" = true →
        c.test.Names [.int64 (-7)] (.int64 (-7)) := by
    intro c hc _ _
    cases List.mem_singleton.1 hc
    rfl
  exact equal_values_meet (t := userTable) (s := ⟨"id", .modulo⟩) (by decide)
    (.inl (.integers rfl rfl)) rfl rfl (by decide) hcolumn hvalue hnames rfl

/-- Equal values of two forms are stored apart: by remainders the integer 3 and the decimal 3.0, by
hashes the decimals 1.5 and 1.50. -/
theorem equal_values_apart :
    (Datum.int64 3).equals (.decimal ⟨.wrap 30, 1⟩) = true ∧
    userTable.route (.list [.int64 3]) = .ok [⟨"ds_0", "t_user_0"⟩] ∧
    userTable.route (.list [.decimal ⟨.wrap 30, 1⟩]) = .ok [⟨"ds_1", "t_user_1"⟩] ∧
    (Datum.decimal ⟨.wrap 15, 1⟩).equals (.decimal ⟨.wrap 150, 2⟩) = true ∧
    { userTable with strategy := some ⟨"id", .hash⟩ }.route (.list [.decimal ⟨.wrap 15, 1⟩]) =
      .ok [⟨"ds_0", "t_user_0"⟩] ∧
    { userTable with strategy := some ⟨"id", .hash⟩ }.route (.list [.decimal ⟨.wrap 150, 2⟩]) =
      .ok [⟨"ds_1", "t_user_1"⟩] :=
  ⟨by decide, by decide, by decide, by decide, by decide, by decide⟩

end Sharding
