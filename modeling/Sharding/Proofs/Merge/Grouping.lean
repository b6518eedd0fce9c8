import Mathlib.Data.List.Forall2
import Sharding.Proofs.Merge.Totals

/-!
# Groups of base rows

The base rows of a grouped query fall into groups by their keys, and the rows that answer the query
stand for one group each (`Answers`).  A shard answers with partial values for the groups of its own
base rows, and `gather` folds the answers of all shards together.

The invariant of that loop is `Gathered`: the groups so far have distinct keys, and each holds the
partial values of the base rows that were read under its key.  A row is folded into its group or
starts a new one (`Gathered.add`); the rows of one shard have distinct keys, so they add the shard's
own groups (`gather_unit`); and after all shards a group stands for the base rows of all of them
with its key (`gather_units`).
-/

namespace Sharding

variable {β : Type} {columns : List (OutputColumn β)} {indices : List Nat}

/-! ## Answers to a grouped query -/

/-- The group key of a base row. -/
def keyOf (columns : List (OutputColumn β)) (indices : List Nat) (b : β) : List UInt8 :=
  groupKey indices (columns.map (·.value b))

/-- The base rows with a group key. -/
def groupOf (columns : List (OutputColumn β)) (indices : List Nat) (bs : List β)
    (key : List UInt8) : List β :=
  bs.filter fun b => keyOf columns indices b = key

/-- The values of a row hold, column by column, for some base rows. -/
def RowOf (holds : Prop → OutputColumn β → List β → Datum → Prop)
    (columns : List (OutputColumn β)) (indices : List Nat) (bs : List β) (row : Row) : Prop :=
  List.Forall₂ (fun c d => holds (indices ≠ []) c bs d) columns row

/-- The rows answer a grouped query over some base rows: there is one row for each group key, or one
row if there are no key columns, and its values hold for the base rows with its key. -/
structure Answers (holds : Prop → OutputColumn β → List β → Datum → Prop)
    (columns : List (OutputColumn β)) (indices : List Nat) (bs : List β) (rows : List Row) :
    Prop where
  nodup : (rows.map (groupKey indices)).Nodup
  complete : ∀ key, key ∈ rows.map (groupKey indices) ↔
    indices = [] ∧ key = [] ∨ ∃ b ∈ bs, keyOf columns indices b = key
  values : ∀ row ∈ rows,
    RowOf holds columns indices (groupOf columns indices bs (groupKey indices row)) row

theorem groupKey_nil (row : Row) : groupKey [] row = [] := rfl

theorem groupOf_append (bs bs' : List β) (key : List UInt8) :
    groupOf columns indices (bs ++ bs') key =
      groupOf columns indices bs key ++ groupOf columns indices bs' key :=
  List.filter_append ..

theorem mem_of_mem_groupOf {bs : List β} {key : List UInt8} {b : β}
    (h : b ∈ groupOf columns indices bs key) : b ∈ bs :=
  List.mem_of_mem_filter h

theorem groupOf_eq_nil {bs : List β} {key : List UInt8}
    (h : ¬ ∃ b ∈ bs, keyOf columns indices b = key) : groupOf columns indices bs key = [] := by
  rw [groupOf, List.filter_eq_nil_iff]
  intro b hb hkey
  exact h ⟨b, hb, by simpa using hkey⟩

/-- Without key columns there is one row. -/
theorem Answers.eq_singleton {holds : Prop → OutputColumn β → List β → Datum → Prop}
    {bs : List β} {rows : List Row} (h : Answers holds columns [] bs rows) :
    ∃ row, rows = [row] := by
  have hmem := (h.complete []).2 (.inl ⟨rfl, rfl⟩)
  have hnodup := h.nodup
  match rows with
  | [] => cases hmem
  | [row] => exact ⟨row, rfl⟩
  | row :: row' :: rows => simp [groupKey_nil] at hnodup

/-- The key of a row is read from its key columns. -/
theorem groupKey_congr {row row' : Row} (h : ∀ i ∈ indices, row.column i = row'.column i) :
    groupKey indices row = groupKey indices row' := by
  unfold groupKey
  induction indices with
  | nil => rfl
  | cons i indices ih =>
    rw [List.flatMap_cons, List.flatMap_cons, h i List.mem_cons_self,
      ih fun j hj => h j (List.mem_cons_of_mem _ hj)]

/-! ## Folding one row -/

/-- Folding two rows column by column.  The plain columns stay as they are. -/
theorem foldRow_ok {grouped : Prop} {folds : List ColumnFold} {bs bs' : List β} {acc row : Row}
    {column : Nat} (hfolds : folds.drop column = columns.map (·.kind.fold))
    (hfits : ∀ c ∈ columns, c.Fits (bs ++ bs'))
    (hacc : List.Forall₂ (fun c d => c.Partial grouped bs d) columns acc)
    (hrow : List.Forall₂ (fun c d => c.Partial grouped bs' d) columns row) :
    ∃ out, foldRow folds column acc row = .ok out ∧
      List.Forall₂ (fun c d => c.Partial grouped (bs ++ bs') d) columns out ∧
      ∀ (j : Nat) (c : OutputColumn β), columns[j]? = some c → c.kind = .plain →
        out[j]? = acc[j]? := by
  induction hacc generalizing row column with
  | nil =>
    cases hrow
    exact ⟨[], rfl, .nil, fun _ _ h => by cases h⟩
  | @cons c d columns acc hd _ ih =>
    cases hrow with
    | cons hd' hrow =>
      rw [List.map_cons] at hfolds
      have hfold : folds[column]?.getD .first = c.kind.fold := by
        rw [← List.head?_drop, hfolds]
        rfl
      have hrest : folds.drop (column + 1) = columns.map (·.kind.fold) := by
        rw [← List.tail_drop, hfolds]
        rfl
      obtain ⟨e, he, hpartial, hplain⟩ :=
        hd.fold column (hfits c List.mem_cons_self) hd'
      obtain ⟨out, hout, hvalues, hsame⟩ :=
        ih hrest (fun c hc => hfits c (List.mem_cons_of_mem _ hc)) hrow
      refine ⟨e :: out, ?_, .cons hpartial hvalues, ?_⟩
      · rw [foldRow, hfold, he]
        show (do let accs ← foldRow folds (column + 1) acc _; pure (e :: accs)) = _
        rw [hout]
        rfl
      · intro j c' hc' hkind
        cases j with
        | zero =>
          cases hc'
          rw [List.getElem?_cons_zero, List.getElem?_cons_zero, hplain hkind]
        | succ j => exact hsame j c' hc' hkind

/-! ## Folding a row into its group -/

theorem addToGroups_new {folds : List ColumnFold} {key : List UInt8} {row : Row}
    {groups : List Group} (h : key ∉ groups.map Prod.fst) :
    addToGroups folds key row groups = .ok (groups ++ [(key, row)]) := by
  induction groups with
  | nil => rfl
  | cons group groups ih =>
    rw [List.map_cons, List.mem_cons, not_or] at h
    rw [addToGroups, if_neg (Ne.symm h.1), ih h.2]
    rfl

theorem addToGroups_old {folds : List ColumnFold} {key : List UInt8} {acc row out : Row}
    {before after : List Group} (h : key ∉ before.map Prod.fst)
    (hout : foldRow folds 0 acc row = .ok out) :
    addToGroups folds key row (before ++ (key, acc) :: after) =
      .ok (before ++ (key, out) :: after) := by
  induction before with
  | nil =>
    rw [List.nil_append, addToGroups, if_pos rfl, hout]
    rfl
  | cons group before ih =>
    rw [List.map_cons, List.mem_cons, not_or] at h
    rw [List.cons_append, addToGroups, if_neg (Ne.symm h.1), ih h.2]
    rfl

/-! ## The loop -/

/-- The groups so far: those with a known key, each with the partial values of the base rows that
were read under its key. -/
structure Gathered (columns : List (OutputColumn β)) (indices : List Nat)
    (content : List UInt8 → List β) (known : List UInt8 → Prop) (groups : List Group) : Prop where
  nodup : (groups.map Prod.fst).Nodup
  keys : ∀ key, key ∈ groups.map Prod.fst ↔ known key
  fresh : ∀ key, ¬ known key → content key = []
  key_eq : ∀ group ∈ groups, groupKey indices group.2 = group.1
  values : ∀ group ∈ groups,
    RowOf OutputColumn.Partial columns indices (content group.1) group.2

/-- The loop starts without groups. -/
theorem gathered_nil :
    Gathered columns indices (fun _ => ([] : List β)) (fun _ => False) [] where
  nodup := List.nodup_nil
  keys _ := by simp
  fresh _ _ := rfl
  key_eq _ h := absurd h List.not_mem_nil
  values _ h := absurd h List.not_mem_nil

theorem Gathered.congr {content content' : List UInt8 → List β} {known known' : List UInt8 → Prop}
    {groups : List Group} (h : Gathered columns indices content known groups)
    (hcontent : ∀ key, content' key = content key) (hknown : ∀ key, known' key ↔ known key) :
    Gathered columns indices content' known' groups := by
  rwa [funext hcontent, funext fun key => propext (hknown key)]

section Step

variable {content : List UInt8 → List β} {known : List UInt8 → Prop} {groups : List Group}
  {bs : List β} {row : Row} {key : List UInt8}

/-- What was read after a row with a key: more under this key, and nothing new under others. -/
def readUnder (content : List UInt8 → List β) (key : List UInt8) (bs : List β) :
    List UInt8 → List β :=
  fun k => if k = key then content k ++ bs else content k

/-- A row with a new key starts a group. -/
theorem Gathered.start (h : Gathered columns indices content known groups)
    (hnew : key ∉ groups.map Prod.fst) (hkey : groupKey indices row = key)
    (hrow : RowOf OutputColumn.Partial columns indices bs row) :
    Gathered columns indices (readUnder content key bs) (fun k => known k ∨ k = key)
      (groups ++ [(key, row)]) := by
  have hunknown : ¬ known key := fun hknown => hnew ((h.keys key).2 hknown)
  refine ⟨?_, ?_, ?_, ?_, ?_⟩
  · rw [List.map_append, List.nodup_append]
    refine ⟨h.nodup, List.nodup_singleton _, fun a ha b hb heq => hnew ?_⟩
    have hb : b = key := List.mem_singleton.1 hb
    rwa [← hb, ← heq]
  · intro k
    rw [List.map_append, List.mem_append, List.map_singleton, List.mem_singleton, h.keys k]
  · intro k hk
    rw [not_or] at hk
    rw [readUnder, if_neg hk.2]
    exact h.fresh k hk.1
  · intro group hgroup
    rw [List.mem_append, List.mem_singleton] at hgroup
    rcases hgroup with hgroup | rfl
    · exact h.key_eq _ hgroup
    · exact hkey
  · intro group hgroup
    rw [List.mem_append, List.mem_singleton] at hgroup
    rcases hgroup with hgroup | rfl
    · have hne : group.1 ≠ key := fun heq => hnew (heq ▸ List.mem_map_of_mem hgroup)
      rw [readUnder, if_neg hne]
      exact h.values _ hgroup
    · rw [readUnder, if_pos rfl, h.fresh _ hunknown]
      exact hrow

/-- A row with a known key changes the row of its group, but not the key of that row. -/
theorem Gathered.replace {before after : List Group} {acc out : Row}
    (h : Gathered columns indices content known (before ++ (key, acc) :: after))
    (hkey : groupKey indices out = key)
    (hout : RowOf OutputColumn.Partial columns indices (content key ++ bs) out) :
    Gathered columns indices (readUnder content key bs) (fun k => known k ∨ k = key)
      (before ++ (key, out) :: after) := by
  have hkeys : (before ++ (key, out) :: after).map Prod.fst =
      (before ++ (key, acc) :: after).map Prod.fst := by
    rw [List.map_append, List.map_append, List.map_cons, List.map_cons]
  have hnodup := h.nodup
  rw [List.map_append, List.map_cons, List.nodup_append] at hnodup
  obtain ⟨-, hafter, hdisjoint⟩ := hnodup
  have hother : ∀ group ∈ before ++ (key, out) :: after, group = (key, out) ∨
      group ∈ before ++ (key, acc) :: after ∧ group.1 ≠ key := by
    intro group hgroup
    rw [List.mem_append, List.mem_cons] at hgroup
    rcases hgroup with hgroup | hgroup | hgroup
    · exact .inr ⟨List.mem_append_left _ hgroup,
        hdisjoint _ (List.mem_map_of_mem hgroup) _ List.mem_cons_self⟩
    · exact .inl hgroup
    · exact .inr ⟨List.mem_append_right _ (List.mem_cons_of_mem _ hgroup),
        fun heq => (List.nodup_cons.1 hafter).1 (List.mem_map.2 ⟨group, hgroup, heq⟩)⟩
  refine ⟨?_, ?_, ?_, ?_, ?_⟩
  · rw [hkeys]
    exact h.nodup
  · intro k
    rw [hkeys, h.keys k]
    refine ⟨.inl, fun hor => hor.elim id fun heq => ?_⟩
    rw [heq, ← h.keys key, List.map_append]
    exact List.mem_append_right _ List.mem_cons_self
  · intro k hk
    rw [not_or] at hk
    rw [readUnder, if_neg hk.2]
    exact h.fresh k hk.1
  · intro group hgroup
    rcases hother group hgroup with rfl | ⟨hold, -⟩
    · exact hkey
    · exact h.key_eq _ hold
  · intro group hgroup
    rcases hother group hgroup with rfl | ⟨hold, hne⟩
    · rw [readUnder, if_pos rfl]
      exact hout
    · rw [readUnder, if_neg hne]
      exact h.values _ hold

/-- A row is folded into the group of its key, or starts one. -/
theorem Gathered.add (h : Gathered columns indices content known groups)
    (hplain : ∀ i ∈ indices, ∃ c, columns[i]? = some c ∧ c.kind = .plain)
    (hkey : groupKey indices row = key)
    (hrow : RowOf OutputColumn.Partial columns indices bs row)
    (hfits : ∀ c ∈ columns, c.Fits (content key ++ bs)) :
    ∃ groups', addToGroups (columns.map (·.kind.fold)) key row groups = .ok groups' ∧
      Gathered columns indices (readUnder content key bs) (fun k => known k ∨ k = key)
        groups' := by
  by_cases hmem : key ∈ groups.map Prod.fst
  · obtain ⟨⟨key', acc⟩, hgroup, hfst⟩ := List.mem_map.1 hmem
    have hfst : key' = key := hfst
    subst key'
    obtain ⟨before, after, rfl⟩ := List.append_of_mem hgroup
    have hbefore : key ∉ before.map Prod.fst := by
      have hnodup := h.nodup
      rw [List.map_append, List.nodup_append] at hnodup
      exact fun hin => hnodup.2.2 key hin key List.mem_cons_self rfl
    obtain ⟨out, hout, hvalues, hsame⟩ := foldRow_ok (List.drop_zero ..) hfits
      (h.values _ hgroup) hrow
    refine ⟨_, addToGroups_old hbefore hout, h.replace ?_ hvalues⟩
    have hacc : groupKey indices acc = key := h.key_eq _ hgroup
    rw [← hacc]
    refine groupKey_congr fun i hi => ?_
    obtain ⟨c, hc, hkind⟩ := hplain i hi
    rw [Row.column, Row.column, hsame i c hc hkind]
  · exact ⟨_, addToGroups_new hmem, h.start hmem hkey hrow⟩

end Step

/-! ## The loop over the units -/

/-- The positions of the key columns. -/
def GroupPlan.keyColumns (plan : GroupPlan) : List Nat :=
  plan.groupKeys.map (·.index)

/-- A plan folds columns by their kinds, and its key columns are plain ones.  An average has its
count and its sum in other columns. -/
structure Describes (columns : List (OutputColumn β)) (plan : GroupPlan) : Prop where
  folds : plan.folds = columns.map (·.kind.fold)
  keys : ∀ i ∈ plan.keyColumns, ∃ c, columns[i]? = some c ∧ c.kind = .plain
  averages : ∀ c ∈ columns, ∀ n s, c.kind = .average n s →
    columns[n]? = some ⟨.count, c.value⟩ ∧ columns[s]? = some ⟨.sum, c.value⟩

section Loop

variable {plan : GroupPlan} {content : List UInt8 → List β} {known : List UInt8 → Prop}
  {groups : List Group} {buffered : Nat} {rest : List (Except Error Row)}

theorem gather_cons {row : Row} {groups' : List Group} (hroom : buffered + 1 ≤ plan.maxRows)
    (hadd : addToGroups plan.folds (groupKey plan.keyColumns row) row groups = .ok groups') :
    gather plan buffered groups (.ok row :: rest) = gather plan (buffered + 1) groups' rest := by
  rw [gather, if_neg (Nat.not_lt.2 hroom)]
  show (do
    let groups ← (addToGroups plan.folds (groupKey plan.keyColumns row) row groups).mapError
      Error.merge
    gather plan (buffered + 1) groups rest) = _
  rw [hadd]
  rfl

/-- The rows of one unit have distinct keys, so each adds the unit's own base rows to its key. -/
theorem gather_unit (hplan : Describes columns plan) {own : List UInt8 → List β} {rows : List Row}
    (hnodup : (rows.map (groupKey plan.keyColumns)).Nodup)
    (hrows : ∀ row ∈ rows, RowOf OutputColumn.Partial columns plan.keyColumns
      (own (groupKey plan.keyColumns row)) row)
    (hroom : buffered + rows.length ≤ plan.maxRows)
    (hfits : ∀ key ∈ rows.map (groupKey plan.keyColumns), ∀ c ∈ columns,
      c.Fits (content key ++ own key))
    (h : Gathered columns plan.keyColumns content known groups) :
    ∃ groups', gather plan buffered groups (rows.map .ok ++ rest) =
        gather plan (buffered + rows.length) groups' rest ∧
      Gathered columns plan.keyColumns
        (fun key => if key ∈ rows.map (groupKey plan.keyColumns) then content key ++ own key
          else content key)
        (fun key => known key ∨ key ∈ rows.map (groupKey plan.keyColumns)) groups' := by
  induction rows generalizing content known groups buffered with
  | nil =>
    exact ⟨groups, rfl, h.congr (fun key => if_neg List.not_mem_nil)
      fun key => ⟨fun hor => hor.resolve_right List.not_mem_nil, .inl⟩⟩
  | cons row rows ih =>
    obtain ⟨key, hkey⟩ : ∃ key, groupKey plan.keyColumns row = key := ⟨_, rfl⟩
    rw [List.map_cons, hkey] at hnodup hfits
    rw [List.length_cons] at hroom
    obtain ⟨hnew, hnodup⟩ := List.nodup_cons.1 hnodup
    have hrow := hrows row List.mem_cons_self
    rw [hkey] at hrow
    obtain ⟨groups₁, hadd, h₁⟩ := h.add hplan.keys hkey hrow (hfits key List.mem_cons_self)
    rw [← hplan.folds, ← hkey] at hadd
    have hfits₁ : ∀ k ∈ rows.map (groupKey plan.keyColumns), ∀ c ∈ columns,
        c.Fits (readUnder content key (own key) k ++ own k) := by
      intro k hk c hc
      have hne : k ≠ key := fun heq => hnew (heq ▸ hk)
      rw [readUnder, if_neg hne]
      exact hfits k (List.mem_cons_of_mem _ hk) c hc
    have hroom₁ : buffered + 1 + rows.length ≤ plan.maxRows := by omega
    obtain ⟨groups₂, hgather, h₂⟩ := ih hnodup
      (fun row' hrow' => hrows row' (List.mem_cons_of_mem _ hrow')) hroom₁ hfits₁ h₁
    refine ⟨groups₂, ?_, h₂.congr (fun k => ?_) fun k => ?_⟩
    · rw [List.map_cons, List.cons_append, gather_cons (by omega) hadd, hgather, List.length_cons,
        Nat.add_assoc, Nat.add_comm 1]
    · rw [List.map_cons, hkey, readUnder]
      by_cases hk : k = key
      · subst hk
        rw [if_pos List.mem_cons_self, if_neg hnew, if_pos rfl]
      · rw [if_neg hk]
        simp only [List.mem_cons, hk, false_or]
    · rw [List.map_cons, hkey, List.mem_cons, or_assoc]

/-- After all units, a group stands for the base rows of all of them with its key. -/
theorem gather_units (hplan : Describes columns plan) {done units : List (List β)}
    {partials : List (List Row)}
    (hpartials : List.Forall₂ (Answers OutputColumn.Partial columns plan.keyColumns) units partials)
    (hroom : buffered + partials.flatten.length ≤ plan.maxRows)
    (hfits : ∀ before, before <+: units → ∀ key, ∀ c ∈ columns,
      c.Fits (groupOf columns plan.keyColumns (done ++ before).flatten key))
    (h : Gathered columns plan.keyColumns (groupOf columns plan.keyColumns done.flatten) known
      groups) :
    ∃ groups', gather plan buffered groups (partials.flatten.map .ok) = .ok groups' ∧
      Gathered columns plan.keyColumns
        (groupOf columns plan.keyColumns (done ++ units).flatten)
        (fun key => known key ∨ key ∈ partials.flatten.map (groupKey plan.keyColumns)) groups' := by
  induction hpartials generalizing done known groups buffered with
  | nil =>
    refine ⟨groups, rfl, ?_⟩
    rw [List.append_nil]
    exact h.congr (fun _ => rfl) fun key => ⟨fun hor => hor.resolve_right List.not_mem_nil, .inl⟩
  | @cons unit rows units partials hunit _ ih =>
    rw [List.flatten_cons, List.length_append] at hroom
    have hcontent : ∀ key, groupOf columns plan.keyColumns (done ++ [unit]).flatten key =
        groupOf columns plan.keyColumns done.flatten key ++
          groupOf columns plan.keyColumns unit key := by
      intro key
      rw [List.flatten_append, List.flatten_singleton, groupOf_append]
    have hfits₁ : ∀ key ∈ rows.map (groupKey plan.keyColumns), ∀ c ∈ columns,
        c.Fits (groupOf columns plan.keyColumns done.flatten key ++
          groupOf columns plan.keyColumns unit key) := by
      intro key _ c hc
      rw [← hcontent]
      exact hfits [unit] (List.cons_prefix_cons.2 ⟨rfl, List.nil_prefix⟩) key c hc
    have hroom₁ : buffered + rows.length ≤ plan.maxRows := by omega
    obtain ⟨groups₁, hgather₁, h₁⟩ := gather_unit hplan
      hunit.nodup hunit.values hroom₁ hfits₁ h
    -- where the unit has no row for a key, it has no base row for it either
    have hcontent₁ : ∀ key, groupOf columns plan.keyColumns (done ++ [unit]).flatten key =
        if key ∈ rows.map (groupKey plan.keyColumns) then
          groupOf columns plan.keyColumns done.flatten key ++
            groupOf columns plan.keyColumns unit key
        else groupOf columns plan.keyColumns done.flatten key := by
      intro key
      rw [hcontent]
      split
      case isTrue => rfl
      case isFalse hkey =>
        rw [groupOf_eq_nil fun hex => hkey ((hunit.complete key).2 (.inr hex)), List.append_nil]
    have hfits₂ : ∀ before, before <+: units → ∀ key, ∀ c ∈ columns,
        c.Fits (groupOf columns plan.keyColumns (done ++ [unit] ++ before).flatten key) := by
      intro before hbefore key c hc
      rw [List.append_assoc, List.singleton_append]
      exact hfits (unit :: before) (List.cons_prefix_cons.2 ⟨rfl, hbefore⟩) key c hc
    have hroom₂ : buffered + rows.length + partials.flatten.length ≤ plan.maxRows := by omega
    obtain ⟨groups₂, hgather₂, h₂⟩ :=
      ih hroom₂ hfits₂ (h₁.congr hcontent₁ fun _ => Iff.rfl)
    rw [List.append_assoc, List.singleton_append] at h₂
    refine ⟨groups₂, ?_, h₂.congr (fun _ => rfl) fun key => ?_⟩
    · rw [List.flatten_cons, List.map_append, hgather₁, hgather₂]
    · rw [List.flatten_cons, List.map_append, List.mem_append, or_assoc]

end Loop

end Sharding
