import Sharding.Proofs.Route.Spread
import Sharding.Proofs.Rule.Hits

/-!
# Inserts by positions

`Insert.routeStrictly` routes an insert by positions: of a row that is ragged, of the generated
column in a row, of the sharding column in a row, and of a row among the drawn keys.  It crashes
where a position is past the end of its list.

It agrees with `Insert.route` on every insert.  A column's position is below the number of columns,
all rows have that many values once none is ragged, and there are as many drawn keys as rows.
-/

namespace Sharding

/-- The result of a strict computation. -/
def Act.ofStrict {W α : Type} (x : Except Stop α) : Act W α :=
  ofRun fun w => (x, w)

/-- Actions after the same first step agree when they agree on each of its results. -/
theorem Act.bind_congr_of_run {W α β : Type} {x : Act W α} {f g : α → Act W β}
    (h : ∀ w a w', x.run w = (.ok a, w') → f a = g a) : x >>= f = x >>= g := by
  funext w
  show (x >>= f).run w = (x >>= g).run w
  rw [run_bind, run_bind]
  rcases hrun : x.run w with ⟨_ | a, w'⟩
  · rfl
  · dsimp only
    rw [h w a w' hrun]

theorem Act.ofStrict_mapError {W α : Type} (x : Except Error α) :
    (Act.ofStrict (x.mapError .error) : Act W α) = Act.ofExcept x := by
  cases x <;> rfl

/-! ## Routing by positions -/

section Definitions

variable {W : Type} (rule : ShardingRule) (source : KeySource W)

/-- The keys of an insert's generated column. -/
def Insert.keysStrictly (i : Insert) (params : List Datum) : Act W (Option KeyInfo) :=
  match i.keyColumn with
  | none => return none
  | some column =>
    match i.columnPosition? column with
    | some position => do
      let values ← Act.ofStrict <| i.rows.mapM fun row => do
        let operand ← elementAt row position
        routed (operand.resolve params)
      return some { column, values, generated := false }
    | none => do
      let values ← i.rows.mapM fun _ => source.draw (rule.generator? i.table)
      return some { column, values, generated := true }

/-- The rows of an insert, with their keys when these were drawn. -/
def Insert.keyedRowsStrictly (i : Insert) (info : Option KeyInfo) : Except Stop (List InsertRow) :=
  match info.filter (·.generated) with
  | none => .ok (i.rows.zipIdx.map fun (values, position) => ⟨position, values, none⟩)
  | some keys => i.rows.zipIdx.mapM fun (values, position) => do
      let key ← elementAt keys.values position
      return ⟨position, values, some key⟩

/-- The value of a row in a column of the physical insert. -/
def InsertRow.valueStrictly (row : InsertRow) (table : String) (params : List Datum)
    (column : Nat) : Except Stop Datum :=
  if column < row.values.length then do
    let operand ← elementAt row.values column
    routed (operand.resolve params)
  else
    match row.key with
    | some key => .ok key
    | none => .error (.error (.bug (.insertColumn table column)))

/-- The nodes that store a row. -/
def InsertRow.nodesStrictly (table : String) (params : List Datum) (all : List DataNode)
    (shardingColumn : Option Nat) (row : InsertRow) : Except Stop (List DataNode) :=
  if rule.isBroadcast table then .ok all
  else
    match shardingColumn with
    | some column => do
      let value ← row.valueStrictly table params column
      let nodes ← rule.routeStrictly table (.list [value])
      if nodes.length ≠ 1 then
        .error (.error (.routing (.rowTargets row.position table nodes.length)))
      else return nodes
    | none =>
      if all.length = 1 then .ok all else .error (.error (.routing (.noShardingColumn table)))

/-- The physical inserts of an insert whose keys are known. -/
def Insert.unitsStrictly (i : Insert) (params : List Datum) (info : Option KeyInfo) :
    Except Stop (List RouteUnit) := do
  let columns := i.fullColumns info
  let all ← routed (rule.dataNodes i.table)
  let shardingColumn := (rule.shardingColumn? i.table).bind fun column =>
    columns.findIdx? (sameName · column)
  let rows ← i.keyedRowsStrictly info
  let placed ← rows.mapM fun row => do
    return (row, ← row.nodesStrictly rule i.table params all shardingColumn)
  routed ((groupByNode placed).mapM fun (node, rows) => insertUnit columns params node rows)

/-- The physical inserts of an insert, and the keys of its generated column. -/
def Insert.routeStrictly (i : Insert) (params : List Datum) :
    Act W (List RouteUnit × Option KeyInfo) := do
  if i.rows.isEmpty then Act.fail (.routing (.insertWithoutRows i.table))
  match i.rows.findIdx? fun row => row.length ≠ i.columns.length with
  | some position =>
    let row ← Act.ofStrict (elementAt i.rows position)
    Act.fail (.routing (.raggedRow position row.length i.columns.length))
  | none =>
    let info ← i.keysStrictly rule source params
    let units ← Act.ofStrict (i.unitsStrictly rule params info)
    return (units, info)

end Definitions

/-! ## Positions -/

section Positions

variable {W : Type} {rule : ShardingRule} {source : KeySource W} {i : Insert}
  {params : List Datum} {info : Option KeyInfo}

theorem InsertRow.valueStrictly_eq (row : InsertRow) (table : String) (params : List Datum)
    (column : Nat) :
    row.valueStrictly table params column =
      (row.value table params column).mapError .error := by
  unfold valueStrictly InsertRow.value
  split
  next hlt =>
    have hlookup := List.getElem?_eq_getElem hlt
    rw [elementAt_eq hlookup, hlookup]
    exact routed_eq _
  next hge =>
    rw [List.getElem?_eq_none (by omega)]
    cases row.key <;> rfl

theorem InsertRow.nodesStrictly_eq (table : String) (params : List Datum) (all : List DataNode)
    (shardingColumn : Option Nat) (row : InsertRow) :
    row.nodesStrictly rule table params all shardingColumn =
      (row.nodes rule table params all shardingColumn).mapError .error := by
  unfold nodesStrictly InsertRow.nodes
  split
  next => rfl
  next =>
    cases shardingColumn with
    | none =>
      dsimp only
      split <;> rfl
    | some column =>
      dsimp only
      rw [mapError_bind, row.valueStrictly_eq]
      refine bind_congr fun value => ?_
      rw [mapError_bind, rule.routeStrictly_eq, routed_eq]
      refine bind_congr fun nodes => ?_
      split <;> rfl

/-- Rows are paired with drawn keys by position when there is a key for each row. -/
theorem Insert.keyedRowsStrictly_eq
    (hkeys : ∀ keys, info = some keys → keys.generated = true →
      keys.values.length = i.rows.length) :
    i.keyedRowsStrictly info = .ok (i.keyedRows info) := by
  unfold keyedRowsStrictly keyedRows
  cases hdrawn : info.filter (·.generated) with
  | none => rfl
  | some keys =>
    obtain ⟨hinfo, hgenerated⟩ := Option.filter_eq_some_iff.1 hdrawn
    have hlength := hkeys keys hinfo hgenerated
    refine mapM_eq_ok_iff.2 ?_
    rw [List.forall₂_map_right_iff, List.forall₂_same]
    rintro ⟨values, position⟩ hrow
    have hlt : position < i.rows.length := List.snd_lt_of_mem_zipIdx hrow
    have hlookup := List.getElem?_eq_getElem (l := keys.values) (i := position) (by omega)
    dsimp only
    rw [elementAt_eq hlookup, Option.bind_some, hlookup]
    rfl

theorem Insert.unitsStrictly_eq
    (hkeys : ∀ keys, info = some keys → keys.generated = true →
      keys.values.length = i.rows.length) :
    i.unitsStrictly rule params info = (i.units rule params info).mapError .error := by
  rw [unitsStrictly, keyedRowsStrictly_eq hkeys]
  unfold Insert.units
  dsimp only
  rw [mapError_bind, routed_eq]
  refine bind_congr fun all => ?_
  show (List.mapM _ _ >>= fun placed => _) = Except.mapError _ (List.mapM _ _ >>= fun placed => _)
  rw [mapError_bind, mapError_mapM]
  refine congr (congrArg _ (congrArg (List.mapM · _) (funext fun row => ?_)))
    (funext fun placed => routed_eq _)
  rw [mapError_bind, row.nodesStrictly_eq]
  rfl

/-- The values of a column that all rows have, by its position. -/
theorem mapM_elementAt {rows : List (List Operand)} {position : Nat}
    (hrows : ∀ row ∈ rows, position < row.length) :
    (rows.mapM fun row => do
      let operand ← elementAt row position
      routed (operand.resolve params)) =
        routed ((rows.filterMap (·[position]?)).mapM (Operand.resolve params)) := by
  induction rows with
  | nil => rfl
  | cons row rows ih =>
    have hlookup := List.getElem?_eq_getElem (hrows row List.mem_cons_self)
    have ih := ih fun r hr => hrows r (List.mem_cons_of_mem _ hr)
    simp only [List.filterMap_cons, hlookup, List.mapM_cons, elementAt_eq hlookup, routed_bind, ih]
    rfl

/-- Keys that the insert gives are found at the position of their column. -/
theorem Insert.keysStrictly_eq (hragged : i.raggedRow? = none) :
    i.keysStrictly rule source params = i.keys rule source params := by
  unfold keysStrictly Insert.keys
  cases i.keyColumn with
  | none => rfl
  | some column =>
    dsimp only
    cases hposition : i.columnPosition? column with
    | none => rfl
    | some position =>
      have hlt : position < i.columns.length := (List.findIdx?_eq_some_iff_getElem.1 hposition).1
      have hrows : ∀ row ∈ i.rows, position < row.length := fun row hrow => by
        rw [Insert.length_of_raggedRow? hragged row hrow]
        exact hlt
      dsimp only
      rw [mapM_elementAt hrows, routed_eq, Act.ofStrict_mapError]

/-- There are as many drawn keys as rows. -/
theorem Insert.length_of_keys {w w' : W} (hragged : i.raggedRow? = none)
    (h : (i.keys rule source params).run w = (.ok info, w')) :
    ∀ keys, info = some keys → keys.generated = true → keys.values.length = i.rows.length := by
  rintro keys rfl hgenerated
  cases Insert.keyed_of_keys hragged h with
  | given => cases hgenerated
  | drawn _ _ hlength _ => exact hlength

/-- The first ragged row by its position. -/
theorem Insert.raggedRow?_eq (i : Insert) :
    i.rows.findIdx? (fun row => row.length ≠ i.columns.length) = i.raggedRow?.map (·.2) := by
  rw [List.findIdx?_eq_fst_find?_zipIdx]
  rfl

/-- Routing an insert by positions is routing it. -/
theorem Insert.routeStrictly_eq (rule : ShardingRule) (source : KeySource W) (i : Insert)
    (params : List Datum) : i.routeStrictly rule source params = i.route rule source params := by
  unfold routeStrictly Insert.route
  rw [i.raggedRow?_eq]
  cases i.rows.isEmpty with
  | true => rfl
  | false =>
    simp only [Bool.false_eq_true, if_false]
    cases hragged : i.raggedRow? with
    | some found =>
      obtain ⟨row, position⟩ := found
      have hrow := List.mem_zipIdx_iff_getElem?.1 (List.mem_of_find?_eq_some hragged)
      rw [Option.map_some]
      dsimp only at hrow ⊢
      rw [elementAt_eq hrow]
      rfl
    | none =>
      rw [Option.map_none]
      dsimp only
      rw [Insert.keysStrictly_eq hragged]
      refine Act.bind_congr_of_run fun w info w' hkeys => ?_
      rw [Insert.unitsStrictly_eq (Insert.length_of_keys hragged hkeys), Act.ofStrict_mapError]

end Positions

end Sharding
