import Hekla.Language.Seeds
import Hekla.Library.Runs
import Hekla.Library.Table

/-!
# The cells of the folds of one key

The folds of a key signature are columns of one row, and the collections among
them of a row beside it.  A row comes to be with the first cell that is written
into it, and its other columns with their defaults.  A batch holds the cells it
has set until they are flushed, and an arm is given the cell there is, or
nothing, which stands for the seed.
-/

namespace Hekla.Language

open Hekla.Library Hekla.Host Hekla.Reads
open Hekla.Derived (FieldKind)
open Hekla.Reads.Tables (SealedCell rendered)

/-- The texts of a key, in key order. -/
abbrev FoldKey := List String

/-- What a backfill replays the log under: the columns it rebuilds, and what the
others hold as of the record replayed. -/
structure Overlay (language : Heklang) where
  only : List String
  values : String → FoldKey → Option (Value language.Plain) := fun _ _ => none

/-- The tables of a key signature, and what a batch has not written yet.  The cell
of a row that there is not is the one it would come to be with. -/
structure FoldRows (spelling : Spelling) (language : Heklang) where
  source : String
  columns : List (FoldColumn spelling language)
  distinct : (columns.map FoldColumn.name).Nodup
  /-- The keys of the main table, and of the side table. -/
  keys : Bool → List FoldKey
  cells : String → FoldKey → Cell
  pending : Table (String × FoldKey) Cell := ∅
  replay : Option (Overlay language) := none

def insertKey (key : FoldKey) (keys : List FoldKey) : List FoldKey :=
  if key ∈ keys then keys else keys ++ [key]

namespace FoldRows

variable {spelling : Spelling} {language : Heklang} (sqlite : Sqlite)

/-- A program's tables before their first record. -/
def start (source : String) (columns : List (FoldColumn spelling language))
    (distinct : (columns.map FoldColumn.name).Nodup) : FoldRows spelling language where
  source := source
  columns := columns
  distinct := distinct
  keys _ := []
  cells name _ := (columns.find? fun column => column.name == name).elim .null fun column =>
    column.defaultCell sqlite

variable (rows : FoldRows spelling language)

def column (name : String) : Option (FoldColumn spelling language) :=
  rows.columns.find? fun column => column.name == name

def columnNamed (name : String) : Except String (FoldColumn spelling language) :=
  let source := rows.source
  (rows.column name).elim
    (.error s!"no derived column `{name}` of `{source}`, which the layout implies") .ok

/-! ## Cells -/

/-- A value as the cell its column holds. -/
def cellFor (column : FoldColumn spelling language) (value : Value language.Plain) :
    Except String Cell :=
  if column.field.sealedUnder.isSome then
    match value.peeled with
    | .none => .ok .null
    | .sealed field subject id content =>
        .ok (.text (spelling.jsonText (.obj [("subject", .str subject), ("id", .str id),
          ("field", .str field), ("sealed", .str content)])))
    | _ =>
        let source := rows.source
        .error s!"`{source}`.`{column.name}` is sealed and was handed plaintext to store"
  else cellOf spelling language column.field.kind value

/-- A cell as an arm is given it.  An empty sealed one is one that no arm has written. -/
def decoded (column : FoldColumn spelling language) (cell : Cell) :
    Except String (Option (Value language.Plain)) :=
  if column.field.sealedUnder.isSome then
    match (fromSql spelling column.field cell).asStr with
    | none => .ok none
    | some text =>
        match SealedCell.parse spelling text with
        | none => .error "a sealed derived cell that is not one"
        | some held =>
            let content : Value language.Plain := .sealed held.field held.subject held.id held.content
            .ok (some (if column.field.kind.isNullable then .some content else content))
  else
    (language.fromJson (toHeklangJson (wireForm spelling column.field.kind
      (fromSql spelling column.field cell))) column.ty).map some

/-- A cell that the batch has set, or the one in the store, if its row is there. -/
def stored (column : FoldColumn spelling language) (key : FoldKey) :
    Except String (Option (Value language.Plain)) :=
  match rows.pending.get (column.name, key) with
  | some cell => decoded column cell
  | none =>
      if key ∈ rows.keys column.collection then decoded column (rows.cells column.name key)
      else .ok none

/-- What an arm accumulates onto. -/
def value (name : String) (key : FoldKey) : Except String (Option (Value language.Plain)) :=
  match rows.columnNamed name, rows.replay with
  | .error why, _ => .error why
  | .ok column, none => rows.stored column key
  | .ok column, some replay =>
      if replay.only.contains name then rows.stored column key else .ok (replay.values name key)

/-- What a reader of the row of a key is served. -/
def served (keystore : Option KeyStore) (column : FoldColumn spelling language) (key : FoldKey) :
    Except String Json :=
  if column.collection && !(rows.keys true).contains key then
    match column.default with
    | none => rendered spelling column.field .null keystore
    | some literal => .ok ((literalOf literal).shown spelling sqlite column.field)
  else rendered spelling column.field (rows.cells column.name key) keystore

/-! ## Statements -/

/-- Whether a row of a table can be inserted with the given columns: the others
have a default that they may hold. -/
def insertable (side : Bool) (given : String → Bool) : Bool :=
  rows.columns.all fun column => column.collection != side || column.nullable || given column.name ||
    column.defaultCell sqlite != .null

/-- `INSERT … ON CONFLICT DO NOTHING` of a key of the main table. -/
def ensureRow (key : FoldKey) : Except String (FoldRows spelling language) :=
  if rows.insertable sqlite false fun _ => false then
    .ok { rows with keys := Function.update rows.keys false (insertKey key (rows.keys false)) }
  else .error "NOT NULL constraint failed"

/-- A key of the side table is one of the main table too. -/
def ensured (column : FoldColumn spelling language) (key : FoldKey) :
    Except String (FoldRows spelling language) :=
  if column.collection then rows.ensureRow sqlite key else .ok rows

/-- Set a cell, which stays with the batch. -/
def write (column : FoldColumn spelling language) (key : FoldKey) (value : Value language.Plain) :
    Except String (FoldRows spelling language) := do
  let ensured ← rows.ensured sqlite column key
  let cell ← rows.cellFor column value
  .ok { ensured with pending := ensured.pending.set (column.name, key) cell }

/-- What an arm makes of a cell.  While a backfill replays the log, the columns it
does not rebuild are kept apart. -/
def set (name : String) (key : FoldKey) (value : Value language.Plain) :
    Except String (FoldRows spelling language) :=
  match rows.columnNamed name, rows.replay with
  | .error why, _ => .error why
  | .ok column, none => rows.write sqlite column key value
  | .ok column, some replay =>
      if replay.only.contains name then rows.write sqlite column key value
      else .ok { rows with replay := some { replay with
        values := fun other place =>
          if other = name ∧ place = key then some value else replay.values other place } }

/-- Whether a column is one of the side table. -/
def inSide (name : String) : Bool := (rows.column name).any FoldColumn.collection

/-- Whether every row that the batch has cells of can be written. -/
def writable : Bool :=
  rows.pending.entries.all fun entry =>
    rows.insertable sqlite (rows.inSide entry.1.1) (fun name =>
      (rows.pending.get (name, entry.1.2)).isSome) &&
    (rows.column entry.1.1).all fun column => column.nullable || entry.2 != .null

/-- Write every row that the batch has cells of. -/
def flush : Except String (FoldRows spelling language) :=
  if rows.writable sqlite then
    .ok { rows with
      keys := fun side =>
        (rows.pending.keys.filter fun place => rows.inSide place.1 == side).foldl
          (fun keys place => insertKey place.2 keys) (rows.keys side)
      cells := fun name key => (rows.pending.get (name, key)).getD (rows.cells name key)
      pending := ∅ }
  else .error "NOT NULL constraint failed"

/-! ## Deploys -/

/-- Every cell of a column as its default. -/
def refilled (column : FoldColumn spelling language) (name : String) (key : FoldKey) : Cell :=
  if name = column.name then column.defaultCell sqlite else rows.cells name key

/-- Take a column away, if it is there. -/
def drop (name : String) : FoldRows spelling language :=
  { rows with
    columns := rows.columns.filter fun column => column.name != name
    distinct := rows.distinct.sublist (List.filter_sublist.map _) }

/-- A program's column, in place of the one of its name. -/
def declared (column : FoldColumn spelling language) : FoldRows spelling language :=
  { rows with
    columns := (rows.drop column.name).columns ++ [column]
    distinct := by
      rw [List.map_append, List.nodup_append]
      refine ⟨(rows.drop column.name).distinct, List.nodup_singleton _, ?_⟩
      intro name kept other last same
      obtain ⟨held, member, rfl⟩ := List.mem_map.mp kept
      obtain rfl := List.mem_singleton.mp last
      simpa [same] using (List.mem_filter.mp member).2 }

/-- Whether the table of a column has one of its name already. -/
def hasColumn (column : FoldColumn spelling language) : Bool :=
  (rows.column column.name).any fun held => held.collection == column.collection

/-- Add a column.  One that its table has already is left as it is, with the default
that it was made with. -/
def addColumn (column : FoldColumn spelling language) : Except String (FoldRows spelling language) :=
  if rows.hasColumn column then .ok (rows.declared column)
  else if column.nullable || column.defaultCell sqlite != .null then
    .ok { rows.declared column with cells := rows.refilled sqlite column }
  else .error "Cannot add a NOT NULL column with default value NULL"

/-- Put a column back to its default for every key there is. -/
def resetColumn (name : String) : Except String (FoldRows spelling language) := do
  let column ← rows.columnNamed name
  let keys := rows.keys column.collection
  if column.nullable || column.defaultCell sqlite != .null || keys.isEmpty then
    .ok { rows with
      cells := fun other key =>
        if key ∈ keys then rows.refilled sqlite column other key else rows.cells other key }
  else .error "NOT NULL constraint failed"

end FoldRows

end Hekla.Language
