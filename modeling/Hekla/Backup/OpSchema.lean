import Hekla.Library.Relation

/-!
# The operational schema, version by version

The tables `hekla.db` has at each schema version, with their columns and
foreign keys, as the migrations build them up.  Which of their columns hold a
log position is stated next to them, and checked against every version.
-/

namespace Hekla.Backup

open Hekla.Library

/-- Tables by name. -/
abbrev Schema := Table String Shape

def addColumn (name type : String) (schema : Schema) (table : String) : Schema :=
  match schema.get table with
  | none => schema
  | some shape => schema.set table { shape with columns := shape.columns ++ [(name, type)] }

def journalKey (onDelete : OnDelete) : ForeignKey where
  columns := ["effect", "position"]
  parent := "effect_invocation"
  parentColumns := ["effect", "position"]
  onDelete := onDelete

def journalColumns : List (String × String) :=
  [("effect", "TEXT"), ("position", "INTEGER"), ("call_hash", "TEXT"),
    ("disambiguator", "INTEGER"), ("result", "TEXT"), ("created_at", "TEXT")]

def schemaV1 (schema : Schema) : Schema :=
  ((schema.set "effect_invocation"
      { columns := [("effect", "TEXT"), ("position", "INTEGER"), ("script_hash", "TEXT"),
          ("status", "TEXT"), ("created_at", "TEXT"), ("completed_at", "TEXT")] }).set
    "effect_journal" { columns := journalColumns, foreign := [journalKey .noAction] }).set
    "module_metadata"
      { columns := [("name", "TEXT"), ("kind", "TEXT"), ("source_hash", "TEXT"),
          ("loaded_at", "TEXT")] }

def schemaV2 (schema : Schema) : Schema :=
  ((schema.set "effect_cursor" { columns := [("effect", "TEXT"), ("watermark", "INTEGER")] }).remove
    "effect_journal").set "effect_journal"
      { columns := journalColumns, foreign := [journalKey .cascade] }

def schemaV3 (schema : Schema) : Schema :=
  schema.set "subject_key"
    { columns := [("subject_field", "TEXT"), ("subject_value", "TEXT"), ("wrapped_key", "BLOB"),
        ("master_key_id", "TEXT"), ("created_at", "TEXT")] }

def schemaV4 (schema : Schema) : Schema :=
  schema.set "effect_quarantine"
    { columns := [("effect", "TEXT"), ("position", "INTEGER"), ("reason", "TEXT"), ("at", "TEXT")] }

def schemaV5 (schema : Schema) : Schema := addColumn "kind" "TEXT" schema "effect_journal"

def schemaV6 (schema : Schema) : Schema :=
  (schema.remove "module_metadata").set "declaration"
    { columns := [("kind", "TEXT"), ("name", "TEXT"), ("hash", "TEXT"), ("signature_hash", "TEXT"),
        ("form", "TEXT"), ("signature", "TEXT"), ("module", "TEXT"), ("first_seen", "TEXT"),
        ("last_seen", "TEXT"), ("current", "INTEGER")] }

def schemaV7 (schema : Schema) : Schema := addColumn "skipped_at" "TEXT" schema "effect_invocation"

def schemaV8 (schema : Schema) : Schema :=
  (schema.set "effect_lane"
      { columns := [("effect", "TEXT"), ("lane", "TEXT"), ("position", "INTEGER")] }).set
    "effect_activation"
      { columns := [("effect", "TEXT"), ("live_boundary", "INTEGER"), ("lane_scheme", "TEXT"),
          ("activated_at", "TEXT")] }

def schemaV9 (schema : Schema) : Schema :=
  addColumn "collapsed_from" "INTEGER" schema "effect_invocation"

def schemaV10 (schema : Schema) : Schema :=
  (schema.remove "subject_key").set "subject_key"
    { columns := [("subject", "TEXT"), ("subject_value", "TEXT"), ("wrapped_key", "BLOB"),
        ("master_key_id", "TEXT"), ("parent_subject", "TEXT"), ("parent_value", "TEXT"),
        ("parent_fingerprint", "TEXT"), ("created_at", "TEXT")] }

/-- Version 11 adds an index and no column. -/
def schemaV11 (schema : Schema) : Schema := schema

def migrations : List (Schema → Schema) :=
  [schemaV1, schemaV2, schemaV3, schemaV4, schemaV5, schemaV6, schemaV7, schemaV8, schemaV9,
    schemaV10, schemaV11]

def SCHEMA_VERSION : Nat := 11

/-- The schema of a database that recorded this version. -/
def schemaAt (version : Nat) : Schema :=
  (migrations.take version).foldl (fun schema migrate => migrate schema) ∅

/-! ## Which columns hold a position -/

/-- Every table the effect runtime keys by a position, in the order they must be discarded from. -/
def POSITIONED_TABLES : List String :=
  ["effect_journal", "effect_invocation", "effect_lane", "effect_quarantine"]

/-- A position held as a watermark to be lowered. -/
def WATERMARK_COLUMNS : List (String × String) :=
  [("effect_cursor", "watermark"), ("effect_activation", "live_boundary")]

/-- The columns that hold a log position. -/
def positionColumns : List (String × String) :=
  POSITIONED_TABLES.map (fun table => (table, "position")) ++ WATERMARK_COLUMNS

/-- The integers of the schema that are no position of their own: a repeat
count, a flag, and the start of a range that ends at its row's position. -/
def otherIntegers : List (String × String) :=
  [("effect_journal", "disambiguator"), ("declaration", "current"),
    ("effect_invocation", "collapsed_from")]

/-- No integer column of any version was forgotten. -/
theorem integers_accounted :
    ∀ version < SCHEMA_VERSION + 1, ∀ entry ∈ (schemaAt version).entries,
      ∀ column ∈ entry.2.columns, column.2 ≠ "INTEGER" ∨
        (entry.1, column.1) ∈ positionColumns ++ otherIntegers := by
  decide

/-- Whether a table has the positions it is named for as columns, and no
foreign key but the journal's. -/
def operational (name : String) (shape : Shape) : Bool :=
  positionColumns.all (fun column => column.1 != name || shape.hasColumn column.2) &&
    shape.foreign.all (fun key => name == "effect_journal" &&
      (key == journalKey .noAction || key == journalKey .cascade))

/-- Every version's tables are ones the clamp can be run on. -/
theorem schemaAt_operational :
    ∀ version < SCHEMA_VERSION + 1, ∀ entry ∈ (schemaAt version).entries,
      operational entry.1 entry.2 = true := by
  decide

/-- An operational database: the tables of some schema version, whatever their rows. -/
structure OpStore where
  version : Nat
  known : version < SCHEMA_VERSION + 1
  database : Database
  shaped : ∀ name, database.shape name = (schemaAt version).get name

namespace OpStore

variable (store : OpStore)

theorem operational_of_shape {name : String} {shape : Shape}
    (held : store.database.shape name = some shape) : operational name shape = true := by
  rw [store.shaped, Table.get_eq_some_iff] at held
  exact schemaAt_operational store.version store.known ⟨name, shape⟩ held

/-- The columns the clamp names are there wherever their table is. -/
theorem hasColumn {name column : String} {shape : Shape}
    (held : store.database.shape name = some shape) (position : (name, column) ∈ positionColumns) :
    shape.hasColumn column = true := by
  have columns := (Bool.and_eq_true_iff.mp (store.operational_of_shape held)).1
  simpa using List.all_eq_true.mp columns (name, column) position

/-- The one foreign key is the journal's. -/
theorem foreign {name : String} {shape : Shape} {key : ForeignKey}
    (held : store.database.shape name = some shape) (declared : key ∈ shape.foreign) :
    name = "effect_journal" ∧ key.parent = "effect_invocation" ∧
      key.columns = ["effect", "position"] ∧ key.parentColumns = ["effect", "position"] := by
  have keys := (Bool.and_eq_true_iff.mp (store.operational_of_shape held)).2
  have allowed := List.all_eq_true.mp keys key declared
  simp only [Bool.and_eq_true, beq_iff_eq, Bool.or_eq_true] at allowed
  obtain ⟨journal, rfl | rfl⟩ := allowed
  · exact ⟨journal, rfl, rfl, rfl⟩
  · exact ⟨journal, rfl, rfl, rfl⟩

end OpStore

end Hekla.Backup
