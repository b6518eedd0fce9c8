import Sharding.Proofs.Route.Targets
import Sharding.Proofs.Sql.Naming

/-!
# Units of a route

Routing renders one unit for each target and keeps of equal units the first.

Whether a select is rewritten for several shards is decided by the number of its targets, before
equal units are dropped.  Where nodes are distinct and the text names every table, units of
different targets are different, so a select with one unit has one target and is rewritten for the
names of its tables only (`single_unit_plain`).  A node that is listed twice gives two targets and
one unit (`single_unit_rewritten`).

Units are compared with the equality of a query, under which a unit with a NULL or a NaN among its
parameters differs from itself.  Without these the units that are kept are the distinct ones; with
one of them no unit is dropped, so a statement can run twice on one node (`kept_units`,
`repeated_units_null`).  The units of an insert are for different nodes anyway.
-/

namespace Sharding

/-! ## Rendering -/

section Rendering

variable {template : Sql.Template} {derived : List Sql.DerivedColumn} {page : Sql.PageClause}
  {params : List Datum} {targets : List RouteTarget} {units : List RouteUnit}

/-- The unit of a target. -/
theorem exists_of_renderTargets (h : renderTargets template derived page params targets = .ok units)
    {target : RouteTarget} (htarget : target ∈ targets) :
    ∃ sql, template.render ⟨target.tables, derived, page⟩ = .ok sql ∧
      ⟨target.shard, sql, params⟩ ∈ units := by
  obtain ⟨unit, hunit⟩ := exists_of_mapM h htarget
  obtain ⟨sql, hsql, heq⟩ := exists_of_bind_eq_ok hunit
  cases heq
  exact ⟨sql, hsql, mem_of_mapM h htarget hunit⟩

theorem length_renderTargets (h : renderTargets template derived page params targets = .ok units) :
    units.length = targets.length :=
  (mapM_eq_ok_iff.1 h).length_eq.symm

/-- All units have the parameters of the statement. -/
theorem params_of_renderTargets
    (h : renderTargets template derived page params targets = .ok units) :
    ∀ unit ∈ units, unit.params = params := by
  intro unit hunit
  obtain ⟨target, -, htarget⟩ := exists_of_mem_mapM h hunit
  obtain ⟨sql, -, heq⟩ := exists_of_bind_eq_ok htarget
  cases heq
  rfl

end Rendering

/-! ## One unit -/

section Single

variable {W : Type} {r : Router W} {rule : ShardingRule} {q : Query} {params : List Datum}
  {route : Route} {unit : RouteUnit} {targets : List RouteTarget} {units : List RouteUnit}
  {w w' : W}

/-- A query over broadcast tables alone has one target; any other has those of its tables. -/
theorem Query.targets_cases (h : q.targets rule params = .ok targets) :
    targets.length ≤ 1 ∨ rule.targets q.tables q.conditions params = .ok targets := by
  unfold Query.targets at h
  dsimp only at h
  by_cases hempty : q.tables.isEmpty = true
  · rw [if_pos hempty] at h
    obtain ⟨all, -, h⟩ := exists_of_bind_eq_ok h
    cases h
    have hbroadcast : q.tables.all rule.isBroadcast = true := by
      rw [List.isEmpty_iff.1 hempty]
      rfl
    rw [if_pos hbroadcast]
    exact .inl (List.length_take_le 1 all)
  · rw [if_neg hempty] at h
    obtain ⟨all, hall, h⟩ := exists_of_bind_eq_ok h
    cases h
    by_cases hbroadcast : q.tables.all rule.isBroadcast = true
    · rw [if_pos hbroadcast]
      exact .inl (List.length_take_le 1 all)
    · rw [if_neg hbroadcast]
      exact .inr hall

theorem Query.derivedFor_one (q : Query) : q.derivedFor 1 = [] := by
  rw [Query.derivedFor, if_neg (by omega)]

theorem Query.pageClause_one (q : Query) : q.pageClause 1 = .keep := by
  unfold Query.pageClause
  split
  · rfl
  · rw [if_neg (by omega)]

/-- The actual tables of targets are words, if those of all nodes are. -/
theorem ShardingRule.isWord_of_targets {tables : List String} {conditions : List Condition}
    (h : rule.targets tables conditions params = .ok targets)
    (hwords : ∀ t ∈ rule.tables, ∀ node ∈ t.nodes, isWord node.table = true) :
    ∀ target ∈ targets, ∀ logical actual, target.actual? logical = some actual →
      isWord actual = true := by
  intro target htarget logical actual hactual
  obtain ⟨pair, hpair, rfl⟩ := Option.map_eq_some_iff.1 hactual
  obtain ⟨t, ht, node, hnode, heq⟩ := ShardingRule.exists_of_targets h target htarget pair
    (List.mem_of_find?_eq_some hpair)
  rw [heq]
  exact hwords t ht node hnode

/-- Targets on one shard with the same text agree in all tables that the text names. -/
theorem RouteTarget.agrees_of_render {template : Sql.Template} {derived : List Sql.DerivedColumn}
    {page : Sql.PageClause} {tables : List String} {sql : String} {a b : RouteTarget}
    (hshard : a.shard = b.shard) (hsql : template.render ⟨a.tables, derived, page⟩ = .ok sql)
    (hsql' : template.render ⟨b.tables, derived, page⟩ = .ok sql)
    (hword : ∀ logical actual, a.actual? logical = some actual → isWord actual = true)
    (hword' : ∀ logical actual, b.actual? logical = some actual → isWord actual = true)
    (hapart : template.namesApart = true)
    (hnamed : ∀ table ∈ tables, ∃ name ∈ template.tables, sameName name table = true) :
    a.Agrees tables b := by
  refine ⟨hshard, fun table htable => ?_⟩
  obtain ⟨name, hname, hsame⟩ := hnamed table htable
  rw [← RouteTarget.actual?_congr hsame, ← RouteTarget.actual?_congr hsame]
  have hactual := Sql.Template.actual?_of_render hsql hsql' ⟨rfl, rfl, hword, hword'⟩ hapart
  exact hactual name hname

/-- Where one unit is kept, all units are on its shard and have its text. -/
theorem eq_of_distinctBy_units (h : distinctBy RouteUnit.equals units = [unit]) :
    ∀ other ∈ units, other.shard = unit.shard ∧ other.sql = unit.sql := by
  intro other hother
  obtain ⟨kept, hkept, hsame⟩ := exists_kept_distinctBy hother
  rw [h, List.mem_singleton] at hkept
  rw [← hkept]
  rcases hsame with rfl | hsame
  · exact ⟨rfl, rfl⟩
  · obtain ⟨hshard, hsql⟩ := RouteUnit.eq_of_equals hsame
    exact ⟨hshard.symm, hsql.symm⟩

/-- The units of a routed query before equal ones are dropped. -/
theorem Router.units_of_query (h : (r.route (.query q) params).run w = (.ok route, w')) :
    ∃ units, q.units r.rule params = .ok units ∧
      route.units = distinctBy RouteUnit.equals units := by
  obtain ⟨units, hrendered, hdistinct, -⟩ := Router.rendered_of_route h
  obtain ⟨found, u, hfound, hpure⟩ := Act.exists_of_bind_eq_ok hrendered
  obtain ⟨hunits, -⟩ := Act.eq_of_ofExcept hfound
  obtain ⟨hpair, -⟩ := Act.eq_of_pure hpure
  rw [(Prod.mk.inj hpair).1] at hdistinct
  exact ⟨found, eq_ok_of_mapError hunits, hdistinct⟩

/-- A query with one unit is rewritten for the names of its tables only: it has one target, no
derived column is written, and the page stays as it is.  The nodes of a table are distinct, actual
tables are words, and the text names every table, each apart from what stands before it. -/
theorem single_unit_plain (hroute : (r.route (.query q) params).run w = (.ok route, w'))
    (hsingle : route.units = [unit]) (hnodes : ∀ t ∈ r.rule.tables, t.nodes.Nodup)
    (hwords : ∀ t ∈ r.rule.tables, ∀ node ∈ t.nodes, isWord node.table = true)
    (hapart : q.template.namesApart = true)
    (hnamed : ∀ table ∈ q.tables, ∃ name ∈ q.template.tables, sameName name table = true) :
    ∃ target, q.targets r.rule params = .ok [target] ∧
      q.template.render ⟨target.tables, [], .keep⟩ = .ok unit.sql ∧
      unit.shard = target.shard ∧ unit.params = params := by
  obtain ⟨units, hunits, hdistinct⟩ := Router.units_of_query hroute
  have hequal := eq_of_distinctBy_units (hdistinct.symm.trans hsingle)
  obtain ⟨targets, htargets, hrender⟩ := exists_of_bind_eq_ok hunits
  have hlength : targets.length ≤ 1 := by
    rcases Query.targets_cases htargets with hlength | hall
    · exact hlength
    · have hword := ShardingRule.isWord_of_targets hall hwords
      refine ShardingRule.length_targets_le_one hall hnodes fun a ha b hb => ?_
      obtain ⟨sql, hsql, ha'⟩ := exists_of_renderTargets hrender ha
      obtain ⟨sql', hsql', hb'⟩ := exists_of_renderTargets hrender hb
      obtain ⟨hshard, htext⟩ := hequal _ ha'
      obtain ⟨hshard', htext'⟩ := hequal _ hb'
      cases htext
      cases htext'
      exact RouteTarget.agrees_of_render (hshard.trans hshard'.symm) hsql hsql' (hword a ha)
        (hword b hb) hapart hnamed
  have hmem : unit ∈ units := by
    refine (distinctFrom_sublist RouteUnit.equals [] units).subset ?_
    show unit ∈ distinctBy RouteUnit.equals units
    rw [← hdistinct, hsingle]
    exact List.mem_singleton_self unit
  obtain ⟨target, rfl⟩ : ∃ target, targets = [target] := by
    refine List.length_eq_one_iff.1 ?_
    have hpos := List.length_pos_of_mem hmem
    have heq := length_renderTargets hrender
    omega
  obtain ⟨sql, hsql, hunit⟩ := exists_of_renderTargets hrender List.mem_cons_self
  obtain ⟨hshard, htext⟩ := hequal _ hunit
  dsimp only [List.length_singleton] at hsql hshard htext
  rw [Query.derivedFor_one, Query.pageClause_one, htext] at hsql
  exact ⟨target, htargets, hsql, hshard.symm, params_of_renderTargets hrender unit hmem⟩

end Single

/-- Orders on two shards, spread by their users. -/
def userOrders : Router KeyBank where
  rule := { tables := [{ name := "t_order"
                         nodes := [⟨"ds_0", "t_order_0"⟩, ⟨"ds_1", "t_order_1"⟩]
                         strategy := some ⟨"user_id", .modulo⟩ }] }
  keys := KeyBank.source

/-- The average of a page of one user's orders. -/
def averageOfUser : Query where
  kind := .select
  template := { text := "SELECT AVG(amount) FROM t_order WHERE user_id = 2 LIMIT 5, 5"
                tokens := [.derived 18, .table 24 7 "t_order", .pagination 50 10] }
  tables := ["t_order"]
  conditions := [⟨"t_order", "user_id", .equal (.literal (.int64 2))⟩]
  shape := { projections := [.aggregate .avg "amount" none], page := some ⟨5, 5⟩ }

/-- The template is the one that scanning the text finds. -/
example : averageOfUser.template = Sql.Template.scan averageOfUser.template.text ["t_order"] := by
  cbv

/-- One user's orders are on one node, so the average and the page stay as they are. -/
theorem single_unit_plain_user :
    ∃ target, averageOfUser.targets userOrders.rule [] = .ok [target] ∧
      averageOfUser.template.render ⟨target.tables, [], .keep⟩ =
        .ok "SELECT AVG(amount) FROM t_order_0 WHERE user_id = 2 LIMIT 5, 5" ∧
      "ds_0" = target.shard ∧ ([] : List Datum) = [] := by
  have hroute : (userOrders.route (.query averageOfUser) []).run ⟨.increment 101, []⟩ =
      (.ok ⟨.query averageOfUser,
        [⟨"ds_0", "SELECT AVG(amount) FROM t_order_0 WHERE user_id = 2 LIMIT 5, 5", []⟩], none⟩,
        ⟨.increment 101, []⟩) := rfl
  exact single_unit_plain hroute rfl (by decide) (by decide) (by decide) (by decide)

/-- Orders whose only node is listed twice. -/
def twiceListed : Router KeyBank where
  rule := { tables := [{ name := "t_order"
                         nodes := [⟨"ds_0", "t_order_0"⟩, ⟨"ds_0", "t_order_0"⟩] }] }
  keys := KeyBank.source

/-- The second page of all orders by their time. -/
def secondPage : Query where
  kind := .select
  template := { text := "SELECT id FROM t_order ORDER BY ts LIMIT 5, 5"
                tokens := [.derived 9, .table 15 7 "t_order", .pagination 35 10] }
  tables := ["t_order"]
  conditions := []
  shape := { projections := [.column "id" none]
             orderBy := [⟨"ts", .asc, .first⟩]
             page := some ⟨5, 5⟩ }

/-- Two targets at one node give one unit, which is rewritten for several. -/
theorem single_unit_rewritten :
    ∃ route, (twiceListed.route (.query secondPage) []).run ⟨.increment 101, []⟩ =
        (.ok route, ⟨.increment 101, []⟩) ∧
      route.units = [⟨"ds_0",
        "SELECT id, ts AS ORDER_BY_DERIVED_0 FROM t_order_0 ORDER BY ts LIMIT 10", []⟩] ∧
      secondPage.template.render ⟨[("t_order", "t_order_0")], [], .keep⟩ =
        .ok "SELECT id FROM t_order_0 ORDER BY ts LIMIT 5, 5" :=
  ⟨_, rfl, rfl, rfl⟩

/-! ## Repetitions -/

section Repetitions

variable {W : Type} {r : Router W} {rule : ShardingRule} {s : Statement} {params : List Datum}
  {route : Route} {units : List RouteUnit} {info : Option KeyInfo} {w w' : W}

/-- Units with the same parameters are equal when they are the same unit and the parameters are
equal to themselves. -/
theorem RouteUnit.equals_of_params {a b : RouteUnit} (ha : a.params = params)
    (hb : b.params = params) : a.equals b = (decide (a = b) && Row.equals params params) := by
  obtain ⟨shard, sql, _⟩ := a
  obtain ⟨shard', sql', _⟩ := b
  cases ha
  cases hb
  rw [Bool.eq_iff_iff]
  simp [RouteUnit.equals]

/-- Units with the same parameters are dropped as repetitions, unless NULL or NaN is among them. -/
theorem distinctBy_of_params (hparams : ∀ unit ∈ units, unit.params = params) :
    distinctBy RouteUnit.equals units =
      if Row.equals params params then distinct units else units := by
  have hequals : ∀ a ∈ units, ∀ b ∈ units,
      a.equals b = (decide (a = b) && Row.equals params params) := fun a ha b hb =>
    RouteUnit.equals_of_params (hparams a ha) (hparams b hb)
  split
  · rename_i hself
    refine distinctFrom_congr (fun a ha b hb => ?_) (List.nil_subset _) (List.Subset.refl units)
    rw [hequals a ha b hb, hself, Bool.and_true]
  · rename_i hself
    refine distinctBy_eq_self (List.pairwise_of_forall_mem_list fun a ha b hb hab => ?_)
    rw [hequals a ha b hb, Bool.and_eq_true] at hab
    exact hself hab.2

/-- The units of a statement are those of an insert, or have all parameters of the statement. -/
theorem Router.rendered_cases (h : (r.rendered s params).run w = (.ok (units, info), w')) :
    (∃ i, s = .insert i ∧ i.units r.rule params info = .ok units) ∨
      s.isInsert = false ∧ ∀ unit ∈ units, unit.params = params := by
  have hpure : ∀ {found : Except RoutingCause (List RouteUnit)},
      (do return (← Act.ofExcept (found.mapError .routing), none) :
        Act W (List RouteUnit × Option KeyInfo)).run w = (.ok (units, info), w') →
      found = .ok units := by
    intro found h
    obtain ⟨units', u, hfound, h⟩ := Act.exists_of_bind_eq_ok h
    obtain ⟨hpair, -⟩ := Act.eq_of_pure h
    obtain ⟨hok, -⟩ := Act.eq_of_ofExcept hfound
    rw [(Prod.mk.inj hpair).1]
    exact eq_ok_of_mapError hok
  have hchange : ∀ {c : Change}, c.units r.rule params = .ok units →
      ∀ unit ∈ units, unit.params = params := by
    intro c h
    obtain ⟨targets, -, h⟩ := exists_of_bind_eq_ok h
    exact params_of_renderTargets h
  cases s with
  | insert i => exact .inl ⟨i, rfl, (Insert.units_of_route h).2.2⟩
  | query q =>
    obtain ⟨targets, -, h⟩ := exists_of_bind_eq_ok (hpure h)
    exact .inr ⟨rfl, params_of_renderTargets h⟩
  | update c => exact .inr ⟨rfl, hchange (hpure h)⟩
  | delete c => exact .inr ⟨rfl, hchange (hpure h)⟩
  | other c =>
    have h := hpure h
    unfold Command.units at h
    dsimp only at h
    split at h
    · obtain ⟨targets, -, h⟩ := exists_of_bind_eq_ok h
      exact .inr ⟨rfl, params_of_renderTargets h⟩
    · obtain ⟨targets, -, h⟩ := exists_of_bind_eq_ok h
      exact .inr ⟨rfl, params_of_renderTargets h⟩

/-- The units that are kept are the distinct ones in the order of their first occurrence, if the
parameters have no NULL and no NaN; with one of them every unit is kept.  Inserts have no
repetitions, as long as no actual table has a space in its name. -/
theorem kept_units (hroute : (r.route s params).run w = (.ok route, w'))
    (hnames : s.isInsert = true →
      ∀ t ∈ r.rule.tables, ∀ node ∈ t.nodes, ' ' ∉ node.table.toList) :
    ∃ units, (r.rendered s params).run w = (.ok (units, route.keyInfo), w') ∧
      (s.isInsert = true ∨ (∀ d ∈ params, d ≠ .null ∧ d.isNaN = false) →
        route.units = distinct units ∧ route.units.Nodup) ∧
      (s.isInsert = false → (∃ d ∈ params, d = .null ∨ d.isNaN = true) →
        route.units = units) := by
  obtain ⟨units, hrendered, hkept, -⟩ := Router.rendered_of_route hroute
  refine ⟨units, hrendered, ?_⟩
  rcases Router.rendered_cases hrendered with ⟨i, rfl, hunits⟩ | ⟨hinsert, hparams⟩
  · have hpairwise := Insert.pairwise_units hunits (hnames rfl)
    have hnodup : units.Nodup := hpairwise.imp fun {a b} hdiffer heq => hdiffer <| by
      rw [heq]
      exact ⟨rfl, rfl⟩
    have hall : route.units = units := by
      rw [hkept]
      exact distinctBy_eq_self (hpairwise.imp fun hdiffer hequals =>
        hdiffer (RouteUnit.eq_of_equals hequals))
    refine ⟨fun _ => ?_, fun _ _ => hall⟩
    rw [hall, distinct_eq_self hnodup]
    exact ⟨rfl, hnodup⟩
  · rw [distinctBy_of_params hparams] at hkept
    constructor
    · rintro (htrue | hvalues)
      · rw [hinsert] at htrue
        cases htrue
      · rw [if_pos (Row.equals_self_iff.2 hvalues)] at hkept
        rw [hkept]
        exact ⟨rfl, nodup_distinct units⟩
    · rintro - ⟨d, hd, hvalue⟩
      rw [if_neg] at hkept
      · exact hkept
      · intro hself
        obtain ⟨hnull, hnan⟩ := Row.equals_self_iff.1 hself d hd
        exact hvalue.elim hnull fun htrue => absurd (hnan.symm.trans htrue) (by decide)

end Repetitions

/-- A change of the status of all orders. -/
def newStatus : Change where
  template := { text := "UPDATE t_order SET status = ?", tokens := [.table 7 7 "t_order"] }
  tables := ["t_order"]
  conditions := []

/-- The node that is listed twice is updated once. -/
theorem kept_units_paid :
    ∃ units, (twiceListed.rendered (.update newStatus) [.text "paid"]).run ⟨.increment 101, []⟩ =
        (.ok (units, none), ⟨.increment 101, []⟩) ∧
      [⟨"ds_0", "UPDATE t_order_0 SET status = ?", [.text "paid"]⟩] = distinct units ∧
      ([⟨"ds_0", "UPDATE t_order_0 SET status = ?", [.text "paid"]⟩] : List RouteUnit).Nodup := by
  have hroute : (twiceListed.route (.update newStatus) [.text "paid"]).run ⟨.increment 101, []⟩ =
      (.ok ⟨.update newStatus, [⟨"ds_0", "UPDATE t_order_0 SET status = ?", [.text "paid"]⟩], none⟩,
        ⟨.increment 101, []⟩) := rfl
  obtain ⟨units, hrendered, hdistinct, -⟩ := kept_units hroute fun h => absurd h (by decide)
  exact ⟨units, hrendered, hdistinct (.inr (by decide))⟩

/-- With a NULL the same node is updated twice. -/
theorem repeated_units_null :
    ∃ route unit, (twiceListed.route (.update newStatus) [.null]).run ⟨.increment 101, []⟩ =
        (.ok route, ⟨.increment 101, []⟩) ∧
      route.units = [unit, unit] ∧
      unit = ⟨"ds_0", "UPDATE t_order_0 SET status = ?", [.null]⟩ :=
  ⟨_, _, rfl, rfl, rfl⟩

end Sharding
