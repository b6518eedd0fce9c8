import Sharding.Config.Document
import Sharding.Proofs.Toml.Written

/-!
# Configurations that are read

A configuration comes into use only if it is valid: one that is read from a document is
(`Config.parse_eq_ok_iff`), and so is one that is loaded, whatever its file holds
(`Config.valid_load`).  The defaults pass the check themselves.  A document that is refused is
refused for the first of its faults (`Config.parse_eq_error_iff`).

A document need not set all fields.  `Config.Settings` are some fields with their values;
`Config.parse_settings` says that a document with these gives the defaults with these fields set.
What else a document holds is passed over (`Config.ofEntries_congr`).
-/

namespace Sharding

namespace Config

variable {processors : Nat} {text : String} {c : Config} {fault : ConfigCause}

/-! ## Validity -/

/-- The faults of a configuration, in the order of its fields. -/
def faults (c : Config) : List ConfigCause :=
  (if c.executorSize = 0 then [.executorSize] else []) ++
    ((if c.maxConnections = 0 then [.maxConnections] else []) ++
      ((if c.maxRows = 0 then [.maxRows] else []) ++
        if maxWorkerId < c.workerId then [.workerId c.workerId] else []))

/-- A configuration that can work. -/
structure Valid (c : Config) : Prop where
  executorSize : 0 < c.executorSize
  maxConnections : 0 < c.maxConnections
  maxRows : 0 < c.maxRows
  workerId : c.workerId ≤ maxWorkerId

theorem faults_eq_nil_iff : c.faults = [] ↔ c.Valid := by
  have hnone : ∀ (p : Prop) [Decidable p] (fault : ConfigCause),
      (if p then [fault] else []) = [] ↔ ¬ p := by
    intro p _ fault
    split <;> simp [*]
  rw [faults, List.append_eq_nil_iff, List.append_eq_nil_iff, List.append_eq_nil_iff, hnone, hnone,
    hnone, hnone]
  constructor
  · rintro ⟨hsize, hconnections, hrows, hworker⟩
    exact ⟨Nat.pos_of_ne_zero hsize, Nat.pos_of_ne_zero hconnections, Nat.pos_of_ne_zero hrows,
      Nat.le_of_not_lt hworker⟩
  · rintro ⟨hsize, hconnections, hrows, hworker⟩
    exact ⟨Nat.ne_of_gt hsize, Nat.ne_of_gt hconnections, Nat.ne_of_gt hrows,
      Nat.not_lt.2 hworker⟩

/-- A configuration is refused for the first of its faults. -/
theorem validate_eq (c : Config) :
    c.validate = match c.faults.head? with
      | none => .ok ()
      | some fault => .error fault := by
  unfold validate faults
  split
  · rfl
  · split
    · rfl
    · split
      · rfl
      · split <;> rfl

theorem validate_eq_ok_iff : c.validate = .ok () ↔ c.Valid := by
  rw [validate_eq, ← faults_eq_nil_iff]
  cases c.faults with
  | nil => simp
  | cons fault faults => simp

/-- The defaults pass the check. -/
theorem valid_standard (hprocessors : 0 < processors) : (standard processors).Valid :=
  ⟨hprocessors, Nat.one_pos, Nat.succ_pos 999999, Nat.zero_le _⟩

/-- A configuration that is read is valid. -/
theorem parse_eq_ok_iff : parse processors text = .ok c ↔
    Toml.document? text >>= ofEntries? processors = some c ∧ c.Valid := by
  rw [parse]
  cases Toml.document? text >>= ofEntries? processors with
  | none => simp
  | some c' =>
    have hvalid := @validate_eq_ok_iff c'
    dsimp only
    cases hvalidate : c'.validate with
    | error fault =>
      rw [hvalidate] at hvalid
      refine iff_of_false nofun ?_
      rintro ⟨heq, hc⟩
      cases heq
      cases hvalid.2 hc
    | ok u =>
      rw [hvalidate] at hvalid
      constructor
      · intro heq
        cases heq
        exact ⟨rfl, hvalid.1 rfl⟩
      · rintro ⟨heq, -⟩
        cases heq
        rfl

/-- What is refused is no configuration, or one with a fault. -/
theorem parse_eq_error_iff : parse processors text = .error fault ↔
    (Toml.document? text >>= ofEntries? processors = none ∧ fault = .malformedDocument) ∨
      ∃ c, Toml.document? text >>= ofEntries? processors = some c ∧
        c.faults.head? = some fault := by
  rw [parse]
  cases Toml.document? text >>= ofEntries? processors with
  | none => simp [eq_comm]
  | some c =>
    have hvalidate := validate_eq c
    dsimp only
    rw [hvalidate]
    cases hhead : c.faults.head? with
    | none => simp [Except.map, hhead]
    | some fault' => simp [Except.map, hhead]

/-- Whatever a file holds, what is loaded is valid. -/
theorem valid_load (hprocessors : 0 < processors) (file : Option String) :
    (load processors file).Valid := by
  unfold load
  split
  next c hfile =>
    obtain ⟨text, -, hparse⟩ := Option.map_eq_some_iff.1 hfile
    exact (parse_eq_ok_iff.1 hparse).2
  next => exact valid_standard hprocessors

/-! ## Settings -/

/-- Entries with other keys are passed over. -/
theorem ofEntries_congr {es es' : Toml.Entries}
    (h : ∀ key ∈ ["executor", "merge", "keygen", "sql_show"], es.lookup key = es'.lookup key) :
    ofEntries? processors es = ofEntries? processors es' := by
  unfold ofEntries?
  rw [h "executor" (by decide), h "merge" (by decide), h "keygen" (by decide),
    h "sql_show" (by decide)]

/-- Some fields of a configuration with their values. -/
structure Settings where
  executorSize : Option Nat := none
  maxConnections : Option Nat := none
  maxRows : Option Nat := none
  workerId : Option Nat := none
  clockTolerance : Option Nat := none
  showSql : Option Bool := none

namespace Settings

variable (s : Settings)

/-- The configuration in which these fields are set. -/
def applyTo (c : Config) : Config where
  executorSize := s.executorSize.getD c.executorSize
  maxConnections := s.maxConnections.getD c.maxConnections
  maxRows := s.maxRows.getD c.maxRows
  workerId := s.workerId.getD c.workerId
  clockTolerance := s.clockTolerance.getD c.clockTolerance
  showSql := s.showSql.getD c.showSql

/-- The fields of each section. -/
def numbers : List (String × List (String × Option Nat)) :=
  [("executor",
      [("executor_size", s.executorSize), ("max_connections_per_query", s.maxConnections)]),
    ("merge", [("max_rows_buffered", s.maxRows)]),
    ("keygen", [("worker_id", s.workerId), ("max_tolerate_time_difference_ms", s.clockTolerance)])]

/-- The numbers have 63 bits. -/
def Fits : Prop :=
  ∀ fields ∈ s.numbers, ∀ field ∈ fields.2, ∀ n ∈ field.2, n < 9223372036854775808

end Settings

/-- The fields that are set. -/
def setFields (fields : List (String × Option Nat)) : List (String × Toml.Plain) :=
  fields.filterMap fun (name, value) => value.map fun n => (name, .integer n)

/-- The document that sets these fields. -/
def Settings.document (s : Settings) : Toml.Written where
  fields := s.showSql.toList.map fun b => ("sql_show", .boolean b)
  sections := s.numbers.map fun (name, fields) => (name, setFields fields)

section SetFields

open Toml (Entries fieldEntries)

variable {fields : List (String × Option Nat)}

theorem map_fst_setFields (fields : List (String × Option Nat)) :
    ((setFields fields).map (·.1)).Sublist (fields.map (·.1)) := by
  induction fields with
  | nil => exact List.Sublist.refl _
  | cons field fields ih =>
    obtain ⟨name, _ | n⟩ := field
    · exact ih.cons name
    · exact ih.cons_cons name

/-- A field is found if it is set. -/
theorem lookup_setFields (hnames : (fields.map (·.1)).Nodup) : ∀ field ∈ fields,
    (fieldEntries (setFields fields)).lookup field.1 = field.2.map fun n => .integer n := by
  induction fields with
  | nil => exact nofun
  | cons first fields ih =>
    obtain ⟨name, value⟩ := first
    obtain ⟨hnew, hrest⟩ := List.nodup_cons.1 hnames
    have hnone : (fieldEntries (setFields fields)).lookup name = none := by
      rw [Entries.lookup_eq_none_iff, Toml.map_fst_fieldEntries]
      exact fun hmem => hnew ((map_fst_setFields fields).mem hmem)
    have hne : ∀ field ∈ fields, field.1 ≠ name := by
      rintro field hfield rfl
      exact hnew (List.mem_map.2 ⟨field, hfield, rfl⟩)
    rw [List.forall_mem_cons]
    cases value with
    | none => exact ⟨hnone, ih hrest⟩
    | some n =>
      refine ⟨List.lookup_cons_self, fun field hfield => ?_⟩
      have hcons : fieldEntries (setFields ((name, some n) :: fields)) =
          (name, .integer n) :: fieldEntries (setFields fields) := rfl
      rw [hcons, List.lookup_cons, beq_false_of_ne (hne field hfield)]
      exact ih hrest field hfield

theorem sectionFields_setFields (hnames : (fields.map (·.1)).Nodup) :
    sectionFields? (fields.map (·.1)) (some (.table .header (fieldEntries (setFields fields)))) =
      some (fields.map fun field => field.2.map fun n => .integer n) := by
  show some ((fields.map (·.1)).map fun name => _) = _
  rw [List.map_map]
  exact congrArg some (List.map_congr_left (lookup_setFields hnames))

theorem natural_map (default : Nat) (value : Option Nat) :
    natural? default (value.map fun n : Nat => .integer n) = some (value.getD default) := by
  cases value with
  | none => rfl
  | some n =>
    show (if 0 ≤ (n : Int) then some (n : Int).toNat else none) = some n
    rw [if_pos (Int.natCast_nonneg n), Int.toNat_natCast]

/-- A section may be empty. -/
example : (Settings.document { maxConnections := some 4, showSql := some true }).text =
    "sql_show = true\n[executor]\nmax_connections_per_query = 4\n[merge]\n[keygen]\n" := by
  cbv

/-- No field is set twice. -/
theorem nodup_numbers (s : Settings) : ∀ fields ∈ s.numbers, (fields.2.map (·.1)).Nodup := by
  simp [Settings.numbers]

/-- A section is found in the document. -/
theorem lookup_document (s : Settings) : ∀ fields ∈ s.numbers,
    s.document.entries.lookup fields.1 =
      some (.table .header (fieldEntries (setFields fields.2))) := by
  obtain ⟨_, _, _, _, _, flag⟩ := s
  simp only [Settings.numbers, List.forall_mem_cons]
  cases flag <;> exact ⟨rfl, rfl, rfl, nofun⟩

theorem ofEntries_document (s : Settings) :
    ofEntries? processors s.document.entries = some (s.applyTo (standard processors)) := by
  have hsections : ∀ fields ∈ s.numbers, sectionFields? (fields.2.map (·.1))
      (s.document.entries.lookup fields.1) =
        some (fields.2.map fun field => field.2.map fun n => .integer n) := by
    intro fields hfields
    rw [lookup_document s fields hfields]
    exact sectionFields_setFields (nodup_numbers s fields hfields)
  have hflag : flag? (s.document.entries.lookup "sql_show") = some (s.showSql.getD false) := by
    obtain ⟨_, _, _, _, _, flag⟩ := s
    cases flag <;> rfl
  simp only [Settings.numbers, List.forall_mem_cons] at hsections
  obtain ⟨hexecutor, hmerge, hkeygen, -⟩ := hsections
  refine Option.bind_eq_some_iff.2 ⟨_, hexecutor, ?_⟩
  refine Option.bind_eq_some_iff.2 ⟨_, hmerge, ?_⟩
  refine Option.bind_eq_some_iff.2 ⟨_, hkeygen, ?_⟩
  refine Option.bind_eq_some_iff.2 ⟨_, natural_map _ s.executorSize, ?_⟩
  refine Option.bind_eq_some_iff.2 ⟨_, natural_map _ s.maxConnections, ?_⟩
  refine Option.bind_eq_some_iff.2 ⟨_, natural_map _ s.maxRows, ?_⟩
  refine Option.bind_eq_some_iff.2 ⟨_, natural_map _ s.workerId, ?_⟩
  refine Option.bind_eq_some_iff.2 ⟨_, natural_map _ s.clockTolerance, ?_⟩
  exact Option.bind_eq_some_iff.2 ⟨_, hflag, rfl⟩

/-- All names can stand without quotes. -/
theorem isName_numbers (s : Settings) : ∀ fields ∈ s.numbers, Toml.IsName fields.1 ∧
    ∀ field ∈ fields.2, Toml.IsName field.1 := by
  simp only [Settings.numbers, List.forall_mem_cons]
  decide

theorem fits_setFields {fields : List (String × Option Nat)}
    (hnames : ∀ field ∈ fields, Toml.IsName field.1)
    (hfits : ∀ field ∈ fields, ∀ n ∈ field.2, n < 9223372036854775808) :
    ∀ l ∈ Toml.fieldLines (setFields fields), l.Fits := by
  intro l hl
  obtain ⟨⟨name, v⟩, hset, rfl⟩ := List.mem_map.1 hl
  obtain ⟨field, hfield, hvalue⟩ := List.mem_filterMap.1 hset
  obtain ⟨n, hn, heq⟩ := Option.map_eq_some_iff.1 hvalue
  cases heq
  exact ⟨hnames field hfield, hfits field hfield n hn⟩

theorem fits_document {s : Settings} (h : s.Fits) : s.document.Fits := by
  refine ⟨fun l hl => ?_, ?_, fun _ hsection => ?_⟩
  · rcases List.mem_append.1 hl with hl | hl
    · obtain ⟨field, hfield, rfl⟩ := List.mem_map.1 hl
      obtain ⟨b, -, rfl⟩ := List.mem_map.1 hfield
      exact ⟨by decide, trivial⟩
    · obtain ⟨_, hsection, hl⟩ := List.mem_flatMap.1 hl
      obtain ⟨fields, hfields, rfl⟩ := List.mem_map.1 hsection
      obtain ⟨hname, hnames⟩ := isName_numbers s fields hfields
      rcases List.mem_cons.1 hl with rfl | hl
      · exact hname
      · exact fits_setFields hnames (h fields hfields) l hl
  · obtain ⟨_, _, _, _, _, flag⟩ := s
    cases flag with
    | none =>
      show ["executor", "merge", "keygen"].Nodup
      decide
    | some b =>
      show ["sql_show", "executor", "merge", "keygen"].Nodup
      decide
  · obtain ⟨fields, hfields, rfl⟩ := List.mem_map.1 hsection
    exact (nodup_numbers s fields hfields).sublist (map_fst_setFields fields.2)

/-- A document that sets some fields gives the defaults with these fields set, unless that is no
valid configuration. -/
theorem parse_settings {s : Settings} (h : s.Fits) :
    parse processors s.document.text =
      (s.applyTo (standard processors)).validate.map fun _ => s.applyTo (standard processors) := by
  have hread : Toml.document? s.document.text >>= ofEntries? processors =
      some (s.applyTo (standard processors)) :=
    Option.bind_eq_some_iff.2 ⟨_, Toml.document_written (fits_document h), ofEntries_document s⟩
  rw [parse, hread]

end SetFields

end Config

end Sharding
