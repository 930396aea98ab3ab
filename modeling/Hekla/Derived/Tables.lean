import Hekla.Library.Ddl

/-!
# Derived tables

A read model is a named fold, kept for every key.  A table has the parts of the
key as its primary key and one column for each fold; what a column's type,
nullability and default are is said here once, for the table that is created
with it and for the column that is added later.
-/

namespace Hekla.Derived

open Library

inductive FieldKind where
  | text (maxLength : Option Nat)
  | i64
  | bool
  | uuid
  | timestamp
  | money (scale : Nat)
  | json
  | oneOf (values : List String)
  | optional (inner : FieldKind)
  deriving DecidableEq

namespace FieldKind

def sqlType : FieldKind → String
  | .text _ | .uuid | .oneOf _ => "TEXT"
  | .i64 => "INTEGER"
  | .money _ => "TEXT"
  | .bool => "INTEGER"
  | .timestamp => "TEXT"
  | .json => "TEXT"
  | .optional inner => inner.sqlType

def isNullable : FieldKind → Bool
  | .optional _ => true
  | _ => false

end FieldKind

structure FieldMeta where
  kind : FieldKind
  /-- The subject the value is sealed under, whose id rides in the cell. -/
  sealedUnder : Option String := none
  deriving DecidableEq

namespace FieldMeta

/-- A sealed column holds ciphertext, whatever its kind. -/
def sqlType (field : FieldMeta) : String :=
  if field.sealedUnder.isSome then "TEXT" else field.kind.sqlType

/-- A sealed column is nullable whatever its type says, because an erasure
writes a null into it. -/
def nullable (field : FieldMeta) : Bool := field.kind.isNullable || field.sealedUnder.isSome

end FieldMeta

/-- One column, and the fold it is kept for. -/
structure ColumnDef where
  name : String
  fold : String
  /-- The fold's seed as a literal. -/
  default : Option String
  field : FieldMeta

/-- What the definition asks of the column. -/
def ColumnDef.spec (column : ColumnDef) : ColumnSpec where
  sqlType := column.field.sqlType
  notNull := !column.field.nullable
  default := column.default

structure IndexDef where
  name : String
  columns : List String
  deriving DecidableEq

/-- The index behind an arm that pins some parts of the key and leaves another open. -/
def rangedIndex (pinned : List String) : IndexDef where
  name := "by_" ++ "_".intercalate pinned
  columns := pinned

/-- The index behind an ordering: the parts that lead it, the siblings it pins
by value, its column, and the rest of the key. -/
def sortIndex (key : List String) (column : String) (lead values : List String) : IndexDef where
  name :=
    (if lead.isEmpty then "sorts__" ++ column
      else "sorts__" ++ column ++ "__" ++ "__".intercalate lead) ++
    String.join (values.map fun value => "+" ++ value)
  columns := lead ++ values ++ [column] ++ key.filter (fun part => !lead.contains part)

/-- The guard column that keeps a keyless table at one row. -/
def oneRow : String := "_one"

/-- One derived table.  No two of its columns share a name, and its indexes are
those of its ranged arms and its orderings. -/
structure TableDef where
  name : String
  key : List (String × FieldMeta)
  columns : List ColumnDef
  indexes : List IndexDef
  distinct : (columns.map ColumnDef.name).Nodup
  derived : ∀ index ∈ indexes, (∃ pinned, index = rangedIndex pinned) ∨
    ∃ column lead values, index = sortIndex (key.map Prod.fst) column lead values

namespace TableDef

/-- The columns of a key as the table declares them. -/
def keySpecs (key : List (String × FieldMeta)) : List (String × ColumnSpec) :=
  if key.isEmpty then
    [(oneRow, { sqlType := "INTEGER", notNull := true, check := some "\"_one\" = 0" })]
  else key.map fun part => (part.1, { sqlType := part.2.sqlType, notNull := true })

/-- `create_table_sql`: the columns of the table. -/
def specs (table : TableDef) : List (String × ColumnSpec) :=
  keySpecs table.key ++ table.columns.map fun column => (column.name, column.spec)

/-- `create_table_sql`: the primary key of the table. -/
def primaryKey (table : TableDef) : List String := (keySpecs table.key).map Prod.fst

/-- The name an index goes by in the database. -/
def indexName (table : TableDef) (index : IndexDef) : String := table.name ++ "_" ++ index.name

end TableDef

/-- Whether an index is one of those the store makes, by its name. -/
def owned (table index : String) : Bool :=
  (table ++ "_by_").toList.isPrefixOf index.toList ||
    (table ++ "_sorts__").toList.isPrefixOf index.toList

/-- Every index a definition asks for is one the store knows for its own. -/
theorem owned_indexName (table : TableDef) (index : IndexDef) (asked : index ∈ table.indexes) :
    owned table.name (table.indexName index) = true := by
  have starts (stem rest : String) (named : index.name = stem ++ rest) :
      (table.name ++ "_" ++ stem).toList.isPrefixOf (table.indexName index).toList = true := by
    rw [List.isPrefixOf_iff_prefix]
    exact ⟨rest.toList, by simp [TableDef.indexName, named]⟩
  rw [owned, Bool.or_eq_true]
  rcases table.derived index asked with ⟨pinned, rfl⟩ | ⟨column, lead, values, rfl⟩
  · left
    have := starts "by_" _ rfl
    simpa [String.append_assoc] using this
  · right
    have named : ∃ rest, (sortIndex (table.key.map Prod.fst) column lead values).name =
        "sorts__" ++ rest := by
      unfold sortIndex
      dsimp only
      split
      · exact ⟨_, String.append_assoc⟩
      · exact ⟨_, by simp only [String.append_assoc]; rfl⟩
    obtain ⟨rest, named⟩ := named
    have := starts "sorts__" rest named
    simpa [String.append_assoc] using this

end Hekla.Derived
