import Mathlib.Data.List.Basic
import Sharding.Toml.Document

/-!
# No key twice

A document that gives a key twice is not read.  So in the table that a document describes no key
occurs twice, and neither does one in any table within it (`unique_document`), whether the table
comes from a header, from a dotted key or from braces.

Every change of a table is one of the table at the end of a path, and what the tables on the way
hold otherwise stays (`Entries.Unique.modifyAt`).  From there the lines are an induction.
-/

namespace Sharding.Toml

/-- No key occurs twice in a table of the value. -/
inductive Value.Unique : Value → Prop
  | text (s : String) : Unique (.text s)
  | integer (n : Int) : Unique (.integer n)
  | float : Unique .float
  | boolean (b : Bool) : Unique (.boolean b)
  | dateTime : Unique .dateTime
  | array {items : List Value} : (∀ v ∈ items, Unique v) → Unique (.array items)
  | table {origin : Origin} {es : Entries} : (es.map (·.1)).Nodup → (∀ e ∈ es, Unique e.2) →
      Unique (.table origin es)
  | tables {before : List Entries} {last : Entries} :
      (∀ es ∈ last :: before, (es.map (·.1)).Nodup) →
      (∀ es ∈ last :: before, ∀ e ∈ es, Unique e.2) → Unique (.tables before last)

/-- No key occurs twice among the entries, or in a table of their values. -/
structure Entries.Unique (es : Entries) : Prop where
  keys : (es.map (·.1)).Nodup
  values : ∀ e ∈ es, e.2.Unique

namespace Entries

variable {origin : Origin} {es es' : Entries} {key : String} {v : Value} {dotted : Bool}

theorem unique_nil : Unique [] :=
  ⟨List.nodup_nil, nofun⟩

theorem Unique.lookup (h : es.Unique) (hv : es.lookup key = some v) : v.Unique := by
  obtain ⟨before, after, rfl, -⟩ := List.lookup_eq_some_iff.1 hv
  exact h.values (key, v) (by simp)

/-- A new key goes to the end. -/
theorem Unique.concat (h : es.Unique) (hkey : key ∉ es.map (·.1)) (hv : v.Unique) :
    (es ++ [(key, v)]).Unique := by
  constructor
  · rw [List.map_append, List.map_singleton]
    refine List.nodup_append.2 ⟨h.keys, List.pairwise_singleton _ _, fun k hk k' hk' heq => ?_⟩
    rw [heq, List.mem_singleton.1 hk'] at hk
    exact hkey hk
  · intro e he
    rcases List.mem_append.1 he with he | he
    · exact h.values e he
    · cases List.mem_singleton.1 he
      exact hv

theorem any_eq_false_iff : es.any (·.1 == key) = false ↔ key ∉ es.map (·.1) := by
  rw [List.any_eq_false]
  constructor
  · intro h hmem
    obtain ⟨e, he, rfl⟩ := List.mem_map.1 hmem
    exact h e he (beq_self_eq_true e.1)
  · intro hkey e he heq
    exact hkey (List.mem_map.2 ⟨e, he, eq_of_beq heq⟩)

theorem lookup_eq_none_iff : es.lookup key = none ↔ key ∉ es.map (·.1) := by
  rw [List.lookup_eq_none_iff]
  constructor
  · intro h hmem
    obtain ⟨e, he, rfl⟩ := List.mem_map.1 hmem
    exact bne_iff_ne.1 (h e he) rfl
  · intro hkey e he
    exact bne_iff_ne.2 fun heq => hkey (List.mem_map.2 ⟨e, he, heq.symm⟩)

theorem set_of_mem (h : es.any (·.1 == key) = true) :
    es.set key v = es.map fun e => if e.1 == key then (e.1, v) else e :=
  if_pos h

theorem set_of_not_mem (h : key ∉ es.map (·.1)) : es.set key v = es ++ [(key, v)] :=
  if_neg (Bool.eq_false_iff.1 (any_eq_false_iff.2 h))

/-- Setting a key leaves the keys as they are, or adds it. -/
theorem Unique.set (h : es.Unique) (hv : v.Unique) : (es.set key v).Unique := by
  cases hany : es.any (·.1 == key) with
  | false =>
    have hkey := any_eq_false_iff.1 hany
    rw [set_of_not_mem hkey]
    exact h.concat hkey hv
  | true =>
    rw [set_of_mem hany]
    constructor
    · have hkeys : (es.map fun e => if e.1 == key then (e.1, v) else e).map (·.1) =
          es.map (·.1) := by
        rw [List.map_map]
        refine List.map_congr_left fun e _ => ?_
        dsimp only [Function.comp]
        split <;> rfl
      rw [hkeys]
      exact h.keys
    · intro e he
      obtain ⟨e', he', rfl⟩ := List.mem_map.1 he
      split
      · exact hv
      · exact h.values e' he'

/-- A change that keeps keys apart does so at the end of every path. -/
theorem Unique.modifyAt {change : Origin → Entries → Option Entries}
    (hchange : ∀ {origin es es'}, Unique es → change origin es = some es' → Unique es')
    {path : List String} (h : es.Unique) (hes' : modifyAt dotted change path origin es = some es') :
    es'.Unique := by
  induction path generalizing origin es es' with
  | nil => exact hchange h hes'
  | cons key path ih =>
    rw [Entries.modifyAt] at hes'
    split at hes'
    next hnone =>
      obtain ⟨sub, hsub, hset⟩ := Option.bind_eq_some_iff.1 hes'
      cases hset
      have hsub := ih unique_nil hsub
      exact h.set (.table hsub.keys hsub.values)
    next origin' sub hfound =>
      split at hes'
      · obtain ⟨sub', hsub', hset⟩ := Option.bind_eq_some_iff.1 hes'
        cases hset
        have hsub : Value.Unique (.table origin' sub) := h.lookup hfound
        cases hsub with
        | table hkeys hvalues =>
          have hsub' := ih ⟨hkeys, hvalues⟩ hsub'
          exact h.set (.table hsub'.keys hsub'.values)
      · cases hes'
    next before last hfound =>
      obtain ⟨last', hlast', hset⟩ := Option.bind_eq_some_iff.1 hes'
      cases hset
      have htables : Value.Unique (.tables before last) := h.lookup hfound
      cases htables with
      | tables hkeys hvalues =>
        have hlast' := ih ⟨hkeys last List.mem_cons_self, hvalues last List.mem_cons_self⟩ hlast'
        refine h.set (.tables (List.forall_mem_cons.2 ⟨hlast'.keys, ?_⟩)
          (List.forall_mem_cons.2 ⟨hlast'.values, ?_⟩))
        · exact (List.forall_mem_cons.1 hkeys).2
        · exact (List.forall_mem_cons.1 hvalues).2
    next => cases hes'

/-- A value is added under a key that is not there. -/
theorem Unique.insert {path : List String} (h : es.Unique) (hv : v.Unique)
    (hes' : es.insert? origin path key v = some es') : es'.Unique := by
  refine h.modifyAt (fun {origin es es'} h hes' => ?_) hes'
  split at hes'
  · cases hes'
  · rename_i hnew
    cases hes'
    rw [Bool.or_eq_true, not_or, Bool.not_eq_true] at hnew
    exact h.concat (any_eq_false_iff.1 (Bool.not_eq_true _ ▸ hnew.2)) hv

end Entries

/-! ## Values -/

theorem unique_of_scalar {cs rest : List Char} {v : Value} (h : scalar cs = some (v, rest)) :
    v.Unique := by
  simp only [scalar, Option.orElse_eq_orElse, Option.orElse_eq_or, Option.or_eq_some_iff,
    Option.map_eq_some_iff, Prod.exists, Prod.mk.injEq] at h
  rcases h with ⟨s, _, -, rfl, -⟩ | ⟨-, ⟨b, _, -, rfl, -⟩ | ⟨-, ⟨_, _, -, rfl, -⟩ |
    ⟨-, ⟨_, _, -, rfl, -⟩ | ⟨-, n, _, -, rfl, -⟩⟩⟩⟩
  · exact .text s
  · exact .boolean b
  · exact .dateTime
  · exact .float
  · exact .integer n

/-- What the readers of values yield with some fuel has no key twice. -/
structure ReadsUnique (fuel : Nat) : Prop where
  value {depth : Nat} {cs rest : List Char} {v : Value} :
    valueFrom? fuel depth cs = some (v, rest) → v.Unique
  items {depth : Nat} {cs rest : List Char} {vs : List Value} :
    items? fuel depth cs = some (vs, rest) → ∀ v ∈ vs, v.Unique
  /-- The entries between braces that are known already come first. -/
  fields {depth : Nat} {es es' : Entries} {cs rest : List Char} :
    es.Unique → fields? fuel depth es cs = some (es', rest) → es'.Unique

namespace ReadsUnique

variable {fuel depth : Nat} {cs rest : List Char} {v : Value} {vs : List Value} {es es' : Entries}

theorem value_succ (ih : ReadsUnique fuel) (h : valueFrom? (fuel + 1) depth cs = some (v, rest)) :
    v.Unique := by
  unfold valueFrom? at h
  split at h
  next =>
    obtain ⟨⟨items, rest'⟩, hitems, heq⟩ := Option.map_eq_some_iff.1 h
    cases heq
    exact .array (ih.items hitems)
  next =>
    split at h
    next =>
      cases h
      exact .table List.nodup_nil nofun
    next =>
      obtain ⟨⟨es, rest'⟩, hfields, heq⟩ := Option.map_eq_some_iff.1 h
      cases heq
      have hes := ih.fields Entries.unique_nil hfields
      exact .table hes.keys hes.values
  next => cases h
  next => cases h
  next => exact unique_of_scalar h

theorem items_succ (ih : ReadsUnique fuel) (h : items? (fuel + 1) depth cs = some (vs, rest)) :
    ∀ v ∈ vs, v.Unique := by
  unfold items? at h
  obtain ⟨ahead, -, h⟩ := Option.bind_eq_some_iff.1 h
  split at h
  next =>
    cases h
    exact nofun
  next =>
    obtain ⟨⟨v, behind⟩, hvalue, h⟩ := Option.bind_eq_some_iff.1 h
    obtain ⟨ahead, -, h⟩ := Option.bind_eq_some_iff.1 h
    split at h
    next =>
      obtain ⟨⟨vs', behind⟩, hitems, heq⟩ := Option.bind_eq_some_iff.1 h
      cases heq
      exact List.forall_mem_cons.2 ⟨ih.value hvalue, ih.items hitems⟩
    next =>
      cases h
      exact List.forall_mem_singleton.2 (ih.value hvalue)
    next => cases h

theorem fields_succ (ih : ReadsUnique fuel) (hes : es.Unique)
    (h : fields? (fuel + 1) depth es cs = some (es', rest)) : es'.Unique := by
  unfold fields? at h
  obtain ⟨⟨⟨path, key⟩, behind⟩, -, h⟩ := Option.bind_eq_some_iff.1 h
  dsimp only at h
  split at h
  next =>
    obtain ⟨⟨v, behind⟩, hvalue, h⟩ := Option.bind_eq_some_iff.1 h
    obtain ⟨es'', hinsert, h⟩ := Option.bind_eq_some_iff.1 h
    have hes'' := hes.insert (ih.value hvalue) hinsert
    split at h
    next => exact ih.fields hes'' h
    next =>
      cases h
      exact hes''
    next => cases h
  next => cases h

end ReadsUnique

theorem readsUnique (fuel : Nat) : ReadsUnique fuel := by
  induction fuel with
  | zero => exact ⟨nofun, nofun, fun _ => nofun⟩
  | succ fuel ih => exact ⟨ih.value_succ, ih.items_succ, ih.fields_succ⟩

/-! ## Lines -/

/-- No key occurs twice in the value that the line assigns, if it assigns one. -/
def Line.Unique : Line → Prop
  | assignment _ _ v => v.Unique
  | _ => True

theorem unique_of_lineBody {cs rest : List Char} {line : Line}
    (h : lineBody? cs = some (line, rest)) : line.Unique := by
  unfold lineBody? at h
  split at h
  next =>
    cases h
    trivial
  next =>
    obtain ⟨_, -, h⟩ := Option.bind_eq_some_iff.1 h
    split at h <;> cases h
    trivial
  next =>
    obtain ⟨_, -, h⟩ := Option.bind_eq_some_iff.1 h
    split at h <;> cases h
    trivial
  next =>
    split at h
    · cases h
      trivial
    · obtain ⟨_, -, h⟩ := Option.bind_eq_some_iff.1 h
      split at h
      next =>
        obtain ⟨⟨v, behind⟩, hvalue, heq⟩ := Option.bind_eq_some_iff.1 h
        cases heq
        exact (readsUnique _).value hvalue
      next => cases h

theorem unique_of_linesFrom {fuel : Nat} {cs : List Char} {lines : List Line}
    (h : linesFrom? fuel cs = some lines) : ∀ line ∈ lines, line.Unique := by
  induction fuel generalizing cs lines with
  | zero => cases h
  | succ fuel ih =>
    unfold linesFrom? at h
    split at h
    next =>
      cases h
      exact nofun
    next =>
      obtain ⟨⟨line, behind⟩, hline, h⟩ := Option.bind_eq_some_iff.1 h
      obtain ⟨behind', -, h⟩ := Option.bind_eq_some_iff.1 h
      obtain ⟨lines', hlines, heq⟩ := Option.bind_eq_some_iff.1 h
      cases heq
      exact List.forall_mem_cons.2 ⟨unique_of_lineBody hline, ih hlines⟩

namespace Reading

variable {key : String} {es es' : Entries}

theorem unique_openTable (hes : es.Unique) (h : openTable? key es = some es') : es'.Unique := by
  unfold openTable? at h
  split at h
  next hnone =>
    cases h
    exact hes.concat (Entries.lookup_eq_none_iff.1 hnone) (.table List.nodup_nil nofun)
  next sub hfound =>
    cases h
    have htable : Value.Unique (.table .implied sub) := hes.lookup hfound
    cases htable with
    | table hkeys hvalues => exact hes.set (.table hkeys hvalues)
  next => cases h

theorem unique_openArrayTable (hes : es.Unique) (h : openArrayTable? key es = some es') :
    es'.Unique := by
  unfold openArrayTable? at h
  split at h
  next hnone =>
    cases h
    refine hes.concat (Entries.lookup_eq_none_iff.1 hnone) (.tables ?_ ?_)
    · exact List.forall_mem_singleton.2 List.nodup_nil
    · exact List.forall_mem_singleton.2 nofun
  next before last hfound =>
    cases h
    have htables : Value.Unique (.tables before last) := hes.lookup hfound
    cases htables with
    | tables hkeys hvalues =>
      -- the table that was the last one goes to those before, and an empty one takes its place
      refine hes.set (.tables (List.forall_mem_cons.2 ⟨List.nodup_nil, ?_⟩)
        (List.forall_mem_cons.2 ⟨nofun, ?_⟩))
      · intro sub hsub
        exact hkeys sub ((List.perm_append_singleton last before).mem_iff.1 hsub)
      · intro sub hsub
        exact hvalues sub ((List.perm_append_singleton last before).mem_iff.1 hsub)
  next => cases h

/-- A line keeps the keys apart. -/
theorem unique_add {r r' : Reading} {line : Line} (hr : r.entries.Unique) (hline : line.Unique)
    (h : r.add? line = some r') : r'.entries.Unique := by
  cases line with
  | blank =>
    cases h
    exact hr
  | header path key =>
    obtain ⟨es, hes, heq⟩ := Option.bind_eq_some_iff.1 h
    cases heq
    exact hr.modifyAt unique_openTable hes
  | arrayHeader path key =>
    obtain ⟨es, hes, heq⟩ := Option.bind_eq_some_iff.1 h
    cases heq
    exact hr.modifyAt unique_openArrayTable hes
  | assignment path key v =>
    obtain ⟨es, hes, heq⟩ := Option.bind_eq_some_iff.1 h
    cases heq
    exact hr.modifyAt (fun hes hes' => hes.insert hline hes') hes

/-- So do lines one after the other. -/
theorem unique_foldlM {lines : List Line} {r r' : Reading} (hr : r.entries.Unique)
    (hlines : ∀ line ∈ lines, line.Unique) (h : lines.foldlM add? r = some r') :
    r'.entries.Unique := by
  induction lines generalizing r with
  | nil =>
    cases h
    exact hr
  | cons line lines ih =>
    obtain ⟨hline, hlines⟩ := List.forall_mem_cons.1 hlines
    obtain ⟨r'', hadd, h⟩ := Option.bind_eq_some_iff.1 h
    exact ih (unique_add hr hline hadd) hlines h

end Reading

/-- No key occurs twice in the table that a document describes, or in a table within it. -/
theorem unique_document {text : String} {es : Entries} (h : document? text = some es) :
    es.Unique := by
  obtain ⟨lines, hlines, h⟩ := Option.bind_eq_some_iff.1 h
  obtain ⟨r, hr, heq⟩ := Option.bind_eq_some_iff.1 h
  cases heq
  exact Reading.unique_foldlM Entries.unique_nil (unique_of_linesFrom hlines) hr

/-- A header for a table that dotted keys have made is a key given twice. -/
example : document? "a.b = 1\n[a]\n" = none := by cbv

end Sharding.Toml
