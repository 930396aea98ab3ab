import Hekla.Derived.Apply
import Hekla.Library.Runs

/-!
# The derived store over deploys

Opening the store creates the tables of a program in transactions of their own,
which the catalog does not see; applying the program reconciles the two.  A
process may stop between any two transactions, and the next deploy may bring
another program.
-/

namespace Hekla.Derived

open Library

/-- What the names and hashes out of the language stand for.  A table's name is
a hash of its key signature; a signature hash covers the type a fold returns;
and, table names being of one length, the name of an index starts with that of
its table. -/
structure Naming where
  key : String → List (String × FieldMeta)
  type : String → String × Bool
  owner : String → String

/-- What a column of a recorded signature and seed is in the schema. -/
def Naming.spec (naming : Naming) (row : Recorded) : ColumnSpec where
  sqlType := (naming.type row.signatureHash).1
  notNull := !(naming.type row.signatureHash).2
  default := row.seed

/-- A program to deploy: its digest and the tables its folds imply. -/
structure Deployable (naming : Naming) where
  digest : Digest
  tables : List TableDef
  distinct : (tables.map TableDef.name).Nodup
  keyed : ∀ table ∈ tables, table.key = naming.key table.name
  placed : ∀ table ∈ tables, ∀ index ∈ table.indexes,
    naming.owner (table.indexName index) = table.name
  typed : ∀ held ∈ columnsOf tables, ∀ entry, digest.get held.2.fold = some entry →
    (held.2.field.sqlType, held.2.field.nullable) = naming.type (entry.signatureHash.getD "")

/-- The columns of the program with their identities. -/
def Deployable.catalog {naming : Naming} (program : Deployable naming) :
    Except ApplyError Catalog :=
  Derived.catalog program.digest program.tables

/-- The database file.  Its own two tables are there or not, like the others. -/
structure Disk where
  format : Int
  schema : Schema
  checkpoint : Option Nat
  catalog : Option Catalog

/-- The rows of the catalog. -/
def Disk.recorded (disk : Disk) : Catalog := disk.catalog.getD ∅

/-- What a transaction on the file finds. -/
def Disk.tx (disk : Disk) : Tx := ⟨disk.schema, disk.recorded⟩

/-- How cells are stored. -/
def formatVersion : Int := 4

/-- Empty a store written in another format. -/
def reformat (disk : Disk) : Except ApplyError Disk :=
  if disk.format = formatVersion then .ok disk
  else do
    let schema ← (disk.schema.tables.keys.foldlM Schema.dropTable disk.schema).mapError .ddl
    .ok { format := formatVersion, schema, checkpoint := none, catalog := none }

/-- `CREATE TABLE IF NOT EXISTS` and `INSERT OR IGNORE` of the checkpoint. -/
def createCheckpoint (disk : Disk) : Except ApplyError Disk :=
  .ok { disk with checkpoint := some (disk.checkpoint.getD 0) }

/-- `CREATE TABLE IF NOT EXISTS` of the catalog. -/
def createCatalog (disk : Disk) : Except ApplyError Disk :=
  .ok { disk with catalog := some disk.recorded }

/-- Every table of the program that is not there yet, in one transaction. -/
def createTables (tables : List TableDef) (disk : Disk) : Except ApplyError Disk := do
  let schema ← (tables.foldlM (fun (schema : Schema) table =>
    schema.createTable table.name table.specs table.primaryKey) disk.schema).mapError .ddl
  .ok { disk with schema }

/-- The transactions of `FoldStore::open`. -/
def openStages (tables : List TableDef) : List (Disk → Except ApplyError Disk) :=
  [reformat, createCheckpoint, createCatalog, createTables tables]

/-- `FoldStore::open`, which the process may not survive past some transaction. -/
def openStore (tables : List TableDef) (interrupted : Option Nat) (disk : Disk) :
    Except ApplyError Unit × Disk :=
  match interrupted with
  | none => advance (openStages tables) disk
  | some stages => (.error .interrupted, (advance ((openStages tables).take stages) disk).2)

/-- `FoldStore::apply`, whose transaction is rolled back when anything in it
fails, and when the process stops before it commits. -/
def apply {naming : Naming} (program : Deployable naming) (interrupted : Bool) (disk : Disk) :
    Except ApplyError (List Change) × Disk :=
  match disk.catalog with
  | none => (.error .noCatalog, disk)
  | some recorded =>
      match applied program.digest program.tables ⟨disk.schema, recorded⟩ with
      | .error error => (.error error, disk)
      | .ok (changes, tx) =>
          if interrupted then (.error .interrupted, disk)
          else (.ok changes, { disk with schema := tx.schema, catalog := some tx.catalog })

/-- `FoldStore::mark_built`. -/
def markBuilt (key : String × String) (head : Nat) (disk : Disk) : Disk :=
  { disk with catalog := disk.catalog.map fun catalog =>
      match catalog.get key with
      | none => catalog
      | some row => catalog.set key { row with builtTo := head } }

/-- The file, and whether a process holds it open. -/
structure Session where
  disk : Disk
  opened : Bool

inductive Action (naming : Naming) where
  | open (program : Deployable naming) (interrupted : Option Nat)
  | apply (program : Deployable naming) (interrupted : Bool)
  | markBuilt (table column : String) (head : Nat)
  | crash

/-- One step of a process, or its end. -/
def step {naming : Naming} (session : Session) : Action naming → Option Session
  | .open program interrupted =>
      let (result, disk) := openStore program.tables interrupted session.disk
      some { disk, opened := result matches .ok _ }
  | .apply program interrupted =>
      if session.opened then
        some { session with disk := (apply program interrupted session.disk).2 }
      else none
  | .markBuilt table column head =>
      if session.opened then
        some { session with disk := markBuilt (table, column) head session.disk }
      else none
  | .crash => some { session with opened := false }

/-- The position a column keeps: where its fold did not change, where it was. -/
def keptTo (was : Option Recorded) (row : Recorded) : Nat :=
  match was with
  | none => 0
  | some before => if before.foldHash = row.foldHash then before.builtTo else 0

/-- The store is what the program says. -/
structure Settled (current : Catalog) (tables : List TableDef) (before after : Disk) : Prop where
  columns : ∀ held ∈ columnsOf tables,
    after.schema.column held.1.name held.2.name = some held.2.spec
  keys : ∀ table ∈ tables, ∀ key, after.schema.primaryKey table.name = some key →
    key = table.primaryKey ∧
      ∀ part ∈ TableDef.keySpecs table.key, after.schema.column table.name part.1 = some part.2
  catalog : ∀ key, after.recorded.get key =
    (current.get key).map fun row => { row with builtTo := keptTo (before.recorded.get key) row }
  indexes : ∀ table ∈ tables, ∀ name index,
    (after.schema.indexes.get name = some index ∧ index.table = table.name) ↔
      ∃ asked ∈ table.indexes, name = table.indexName asked ∧ index = ⟨table.name, asked.columns⟩

/-- The catalog and the schema speak for what the program defines: a column
whose fold hash did not move is recorded as the program has it, one that is not
recorded and stands already is as defined, and an index that stands already
under a wanted name is over the wanted columns or goes with one of its own. -/
structure Trusted (current : Catalog) (tables : List TableDef) (disk : Disk) : Prop where
  unmoved : ∀ held ∈ columnsOf tables, ∀ row ∈ current.get (columnKey held),
    ∀ before ∈ disk.recorded.get (columnKey held),
      before.foldHash ≠ row.foldHash ∨ before = { row with builtTo := before.builtTo }
  unseen : ∀ held ∈ columnsOf tables, (disk.recorded.get (columnKey held)).isSome = true ∨
    ∀ spec ∈ disk.schema.column held.1.name held.2.name, spec = held.2.spec
  indexes : ∀ table ∈ tables, ∀ asked ∈ table.indexes,
    ∀ held ∈ disk.schema.indexes.get (table.indexName asked),
      held.columns = asked.columns ∨
        (reconcile disk.recorded current).any (fun change => change.dooms held) = true
  names : ∀ table ∈ tables, ∀ asked ∈ table.indexes, ∀ other ∈ table.indexes,
    asked.name ≠ other.name ∨ asked.columns = other.columns

instance (current : Catalog) (tables : List TableDef) (disk : Disk) :
    Decidable (Trusted current tables disk) :=
  decidable_of_iff (_ ∧ _ ∧ _ ∧ _) ⟨fun ⟨unmoved, unseen, indexes, names⟩ =>
    ⟨unmoved, unseen, indexes, names⟩, fun ⟨unmoved, unseen, indexes, names⟩ =>
    ⟨unmoved, unseen, indexes, names⟩⟩

/-- An apply that commits is one that trusts what it finds. -/
def Trusts {naming : Naming} (session : Session) : Action naming → Prop
  | .apply program false =>
      ∀ current ∈ program.catalog.toOption, Trusted current program.tables session.disk
  | _ => True

instance {naming : Naming} (session : Session) :
    ∀ action : Action naming, Decidable (Trusts session action)
  | .apply program false => inferInstanceAs
      (Decidable (∀ current ∈ program.catalog.toOption, Trusted current program.tables session.disk))
  | .apply _ true | .open _ _ | .markBuilt _ _ _ | .crash => isTrue trivial

end Hekla.Derived
