import Sharding.Proofs.Route.StrictInsert
import Sharding.Proofs.Sql.Slices
import Sharding.Route.Engine

/-!
# What stops routing

Routing a statement gives a route, or it stops for a routing cause, or it stops because a draw of a
key did.  This holds of every statement under every rule: rows may be missing or ragged, parameters
unbound, tokens out of place, tables unknown, repeated or without nodes.

* `FailsForRouting` says of a computation without a world that it fails for routing causes only.
  An insert's units do once the keys are those of `Insert.keys`: a sharding column behind the given
  columns is the generated one, and then each row has a key (`Insert.units_fail`).
* `Act.Stops` says the same of an action, with what stopped it and the world then.

That no position, slice or remainder is outside of its domain is a matter of the strict
definitions, which agree with the total ones.
-/

namespace Sharding

/-! ## Failures without a world -/

section Failures

variable {α β : Type}

/-- A failed computation failed for a routing cause. -/
def FailsForRouting (x : Except Error α) : Prop :=
  ∀ e, x = .error e → ∃ cause, e = .routing cause

theorem failsForRouting_ok (a : α) : FailsForRouting (.ok a) := by
  intro e h
  cases h

theorem failsForRouting_error (cause : RoutingCause) :
    FailsForRouting (.error (.routing cause) : Except Error α) := by
  intro e h
  cases h
  exact ⟨cause, rfl⟩

theorem failsForRouting_mapError (x : Except RoutingCause α) :
    FailsForRouting (x.mapError .routing) := by
  cases x with
  | error cause => exact failsForRouting_error cause
  | ok a => exact failsForRouting_ok a

theorem FailsForRouting.bind {x : Except Error α} {f : α → Except Error β}
    (hx : FailsForRouting x) (hf : ∀ a, FailsForRouting (f a)) : FailsForRouting (x >>= f) := by
  cases x with
  | error e =>
    obtain ⟨cause, rfl⟩ := hx e rfl
    exact failsForRouting_error cause
  | ok a => exact hf a

theorem failsForRouting_mapM {f : α → Except Error β} {xs : List α}
    (h : ∀ x ∈ xs, FailsForRouting (f x)) : FailsForRouting (xs.mapM f) := by
  induction xs with
  | nil => exact failsForRouting_ok []
  | cons x xs ih =>
    rw [List.mapM_cons]
    refine (h x List.mem_cons_self).bind fun y => ?_
    exact (ih fun x hx => h x (List.mem_cons_of_mem _ hx)).bind fun ys => failsForRouting_ok _

end Failures

/-! ## Units of an insert -/

section Units

variable {W : Type} {rule : ShardingRule} {i : Insert} {params : List Datum}
  {info : Option KeyInfo}

/-- A row has a value in each column of the physical insert: one of its own, or its key. -/
theorem Insert.value_fails (hragged : i.raggedRow? = none)
    (hkeys : ∀ keys, info = some keys → keys.generated = true →
      keys.values.length = i.rows.length) {row : InsertRow} (hrow : row ∈ i.keyedRows info)
    {column : Nat} (hcolumn : column < (i.fullColumns info).length) :
    FailsForRouting (row.value i.table params column) := by
  obtain ⟨⟨values, position⟩, hmem, rfl⟩ := List.mem_map.1 hrow
  have hvalues : values.length = i.columns.length :=
    Insert.length_of_raggedRow? hragged values (List.fst_mem_of_mem_zipIdx hmem)
  have hposition : position < i.rows.length := List.snd_lt_of_mem_zipIdx hmem
  unfold InsertRow.value
  dsimp only
  by_cases hlt : column < values.length
  · rw [List.getElem?_eq_getElem hlt]
    exact failsForRouting_mapError _
  · rw [List.getElem?_eq_none (by omega)]
    -- The column is behind the given ones, so it is that of the drawn keys.
    cases hdrawn : info.filter (·.generated) with
    | none =>
      rw [Insert.fullColumns, hdrawn] at hcolumn
      simp only [Option.map_none, Option.toList_none, List.append_nil] at hcolumn
      omega
    | some keys =>
      obtain ⟨hinfo, hgenerated⟩ := Option.filter_eq_some_iff.1 hdrawn
      have hlength := hkeys keys hinfo hgenerated
      rw [Option.bind_some, List.getElem?_eq_getElem (by omega)]
      exact failsForRouting_ok _

theorem InsertRow.nodes_fail {row : InsertRow} {table : String} {all : List DataNode}
    {shardingColumn : Option Nat}
    (hvalue : ∀ column, shardingColumn = some column →
      FailsForRouting (row.value table params column)) :
    FailsForRouting (row.nodes rule table params all shardingColumn) := by
  unfold InsertRow.nodes
  split
  next => exact failsForRouting_ok _
  next =>
    cases shardingColumn with
    | none =>
      dsimp only
      split
      next => exact failsForRouting_ok _
      next => exact failsForRouting_error _
    | some column =>
      refine (hvalue column rfl).bind fun value => ?_
      refine (failsForRouting_mapError _).bind fun nodes => ?_
      split
      next => exact failsForRouting_error _
      next => exact failsForRouting_ok _

/-- The units of an insert fail for routing causes only, once it has its keys. -/
theorem Insert.units_fail (hragged : i.raggedRow? = none)
    (hkeys : ∀ keys, info = some keys → keys.generated = true →
      keys.values.length = i.rows.length) :
    FailsForRouting (i.units rule params info) := by
  refine (failsForRouting_mapError _).bind fun all => ?_
  refine (failsForRouting_mapM fun row hrow => ?_).bind fun placed => failsForRouting_mapError _
  refine (InsertRow.nodes_fail fun column hcolumn => ?_).bind fun nodes => failsForRouting_ok _
  obtain ⟨name, -, hfound⟩ := Option.bind_eq_some_iff.1 hcolumn
  exact Insert.value_fails hragged hkeys hrow (List.findIdx?_eq_some_iff_getElem.1 hfound).1

end Units

/-! ## Stops of an action -/

section Stops

variable {W α β : Type} {post : Stop → W → Prop}

/-- Whenever the action stops short, `post` holds of what stops it and of the world then. -/
def Act.Stops (x : Act W α) (post : Stop → W → Prop) : Prop :=
  ∀ w stop w', x.run w = (.error stop, w') → post stop w'

namespace Act

theorem stops_pure (a : α) : (pure a : Act W α).Stops post := by
  intro w stop w' h
  cases h

theorem stops_fail {e : Error} (h : ∀ w, post (.error e) w) : (fail e : Act W α).Stops post := by
  intro w stop w' hrun
  cases hrun
  exact h w

theorem stops_ofExcept {x : Except Error α} (hx : FailsForRouting x)
    (h : ∀ cause w, post (.error (.routing cause)) w) : (ofExcept x : Act W α).Stops post := by
  cases x with
  | ok a => exact stops_pure a
  | error e =>
    obtain ⟨cause, rfl⟩ := hx e rfl
    exact stops_fail fun w => h cause w

/-- A sequence stops where its first part does, or where the second part does for a result of the
first. -/
theorem Stops.bind {x : Act W α} {f : α → Act W β} (hx : x.Stops post)
    (hf : ∀ w a w', x.run w = (.ok a, w') → (f a).Stops post) : (x >>= f).Stops post := by
  intro w stop w' hrun
  rw [run_bind] at hrun
  rcases hfirst : x.run w with ⟨stop' | a, u⟩
  · rw [hfirst] at hrun
    cases hrun
    exact hx w stop w' hfirst
  · rw [hfirst] at hrun
    exact hf w a u hfirst u stop w' hrun

theorem stops_mapM {f : α → Act W β} (h : ∀ x, (f x).Stops post) (xs : List α) :
    (xs.mapM f).Stops post := by
  induction xs with
  | nil => exact stops_pure []
  | cons x xs ih =>
    rw [List.mapM_cons]
    exact (h x).bind fun _ y _ _ => ih.bind fun _ ys _ _ => stops_pure _

end Act

end Stops

/-! ## Routing -/

section Routing

variable {W : Type}

/-- What can stop routing a statement: a routing cause, or a draw for the table of an insert. -/
inductive Router.StoppedBy (r : Router W) (s : Statement) : Stop → W → Prop
  | routing (cause : RoutingCause) (w : W) : StoppedBy r s (.error (.routing cause)) w
  | draw {i : Insert} {w w' : W} {stop : Stop} : s = .insert i →
      (r.keys.draw (r.rule.generator? i.table)).run w = (.error stop, w') → StoppedBy r s stop w'

variable {r : Router W} {i : Insert} {params : List Datum}

theorem Insert.keys_stops :
    (i.keys r.rule r.keys params).Stops (r.StoppedBy (.insert i)) := by
  unfold Insert.keys
  cases i.keyColumn with
  | none => exact Act.stops_pure _
  | some column =>
    dsimp only
    cases i.columnPosition? column with
    | none =>
      refine (Act.stops_mapM (fun _ => ?_) _).bind fun _ values _ _ => Act.stops_pure _
      exact fun w stop w' hdraw => .draw rfl hdraw
    | some position =>
      refine Act.Stops.bind ?_ fun _ values _ _ => Act.stops_pure _
      exact Act.stops_ofExcept (failsForRouting_mapError _) fun cause w => .routing cause w

theorem Insert.route_stops :
    (i.route r.rule r.keys params).Stops (r.StoppedBy (.insert i)) := by
  unfold Insert.route
  cases i.rows.isEmpty with
  | true => exact Act.stops_fail fun w => .routing _ w
  | false =>
    simp only [Bool.false_eq_true, if_false]
    cases hragged : i.raggedRow? with
    | some found => exact Act.stops_fail fun w => .routing _ w
    | none =>
      refine Insert.keys_stops.bind fun w info w' hkeys => ?_
      refine Act.Stops.bind ?_ fun _ units _ _ => Act.stops_pure _
      refine Act.stops_ofExcept ?_ fun cause w => .routing cause w
      exact Insert.units_fail hragged (Insert.length_of_keys hragged hkeys)

/-- Units that are computed without keys stop for routing causes. -/
theorem Router.rendered_stops (s : Statement) :
    (r.rendered s params).Stops (r.StoppedBy s) := by
  have hwithout : ∀ units : Except RoutingCause (List RouteUnit),
      (do return (← Act.ofExcept (units.mapError .routing), none) :
        Act W (List RouteUnit × Option KeyInfo)).Stops (r.StoppedBy s) := fun units => by
    refine Act.Stops.bind ?_ fun _ units _ _ => Act.stops_pure _
    exact Act.stops_ofExcept (failsForRouting_mapError _) fun cause w => .routing cause w
  cases s with
  | insert i => exact Insert.route_stops
  | query q => exact hwithout _
  | update c => exact hwithout _
  | delete c => exact hwithout _
  | other c => exact hwithout _

theorem Router.route_stops (s : Statement) : (r.route s params).Stops (r.StoppedBy s) := by
  refine (Router.rendered_stops s).bind fun w found w' _ => ?_
  obtain ⟨units, info⟩ := found
  dsimp only
  split
  next => exact Act.stops_fail fun w => .routing _ w
  next => exact Act.stops_pure _

end Routing

/-- Routing stops for a routing cause or with a draw, and for nothing else.  The bug of a sharding
column behind a row is never met.  The definitions that crash where a position is past its list, a
slice is no stretch of its text or a remainder is taken by zero are those that route: of an insert,
of the values of a sharding column, and of a template. -/
theorem routing_stops_for_causes_or_draws :
    (∀ (W : Type) (r : Router W) (s : Statement) (params : List Datum) (w w' : W) (stop : Stop),
      (r.route s params).run w = (.error stop, w') → r.StoppedBy s stop w') ∧
    (∀ (W : Type) (rule : ShardingRule) (source : KeySource W) (i : Insert) (params : List Datum)
      (info : Option KeyInfo) (w w' : W), i.raggedRow? = none →
      (i.keys rule source params).run w = (.ok info, w') →
      ∀ table position, i.units rule params info ≠ .error (.bug (.insertColumn table position))) ∧
    (∀ (W : Type) (rule : ShardingRule) (source : KeySource W) (i : Insert) (params : List Datum),
      i.routeStrictly rule source params = i.route rule source params) ∧
    (∀ (rule : ShardingRule) (table : String) (value : ShardingValue),
      rule.routeStrictly table value = routed (rule.route table value)) ∧
    (∀ (template : Sql.Template) (s : Sql.Substitution),
      template.renderStrictly s = routed (template.render s)) := by
  refine ⟨fun W r s params w w' stop h => Router.route_stops s w stop w' h, ?_,
    fun W rule source i params => i.routeStrictly_eq rule source params,
    fun rule table value => rule.routeStrictly_eq table value,
    fun template s => template.renderStrictly_eq s⟩
  intro W rule source i params info w w' hragged hkeys table position hunits
  obtain ⟨cause, hcause⟩ :=
    Insert.units_fail hragged (Insert.length_of_keys hragged hkeys) _ hunits
  cases hcause

/-- Orders in a table without data nodes. -/
def unplacedOrders : Router KeyBank where
  rule := { tables := [{ name := "t_order", nodes := [],
                         strategy := some ⟨"order_id", .modulo⟩ }] }
  keys := KeyBank.source

/-- Three keys are drawn before the missing nodes stop the insert, and with nodes the drawn keys
stand in for the sharding column that the rows lack. -/
theorem routing_stops_for_causes_or_draws_orders :
    unplacedOrders.StoppedBy (.insert newOrders) (.error (.routing (.noDataNodes "t_order")))
        ⟨.increment 104, []⟩ ∧
      newOrders.units orderRouter.rule newOrderParams newOrdersRoute.keyInfo ≠
        .error (.bug (.insertColumn "t_order" 2)) := by
  have hstop : (unplacedOrders.route (.insert newOrders) newOrderParams).run
      ⟨.increment 101, []⟩ =
        (.error (.error (.routing (.noDataNodes "t_order"))), ⟨.increment 104, []⟩) := rfl
  have hkeys : (newOrders.keys orderRouter.rule KeyBank.source newOrderParams).run
      ⟨.increment 101, []⟩ = (.ok newOrdersRoute.keyInfo, ⟨.increment 104, []⟩) := rfl
  have hrouting := routing_stops_for_causes_or_draws
  exact ⟨hrouting.1 _ _ _ _ _ _ _ hstop, hrouting.2.1 _ _ _ _ _ _ _ _ rfl hkeys _ _⟩

end Sharding
