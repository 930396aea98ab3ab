import Hekla.Library.Passes
import Hekla.Library.Table

/-!
# Table definitions and the statements that change them

A schema holds the tables of a database, each with its columns and its primary
key, and the indexes over them.  Table and index names share one namespace, and
an index never outlives its table.  The rows are not here: a statement that is
refused for what they hold is one that fails for a reason of its own.
-/

namespace Hekla.Library

/-- What a table says of one column. -/
structure ColumnSpec where
  sqlType : String
  notNull : Bool
  default : Option String := none
  check : Option String := none
  deriving DecidableEq

structure TableShape where
  columns : Table String ColumnSpec
  primaryKey : List String

structure IndexShape where
  table : String
  columns : List String
  deriving DecidableEq

structure Schema where
  tables : Table String TableShape
  indexes : Table String IndexShape
  placed : ∀ name index, indexes.get name = some index →
    ∃ shape, tables.get index.table = some shape

inductive DdlError where
  | noTable (table : String)
  | noColumn (table column : String)
  | duplicateColumn (table column : String)
  | duplicateColumns (table : String)
  | keyColumn (table column : String)
  | indexed (table column : String)
  | nameTaken (name : String)
  | failed (message : String)
  deriving DecidableEq

/-- A name without regard to the case of its letters, as a database may compare it. -/
def folded (name : String) : String := String.ofList (name.toList.map Char.toLower)

namespace Schema

/-- A database with nothing in it. -/
def empty : Schema := ⟨∅, ∅, by simp⟩

/-- What the schema says of a column, if the table has it. -/
def column (schema : Schema) (table column : String) : Option ColumnSpec :=
  (schema.tables.get table).bind fun shape => shape.columns.get column

/-- The key of a table, if it exists. -/
def primaryKey (schema : Schema) (table : String) : Option (List String) :=
  (schema.tables.get table).map TableShape.primaryKey

/-- The indexes over a table, by name. -/
def indexesOn (schema : Schema) (table : String) : List (String × IndexShape) :=
  (schema.indexes.entries.filter fun entry => entry.2.table == table).map
    fun entry => (entry.1, entry.2)

/-- Another shape for a table the schema has or is to have. -/
def put (schema : Schema) (table : String) (shape : TableShape) : Schema where
  tables := schema.tables.set table shape
  indexes := schema.indexes
  placed := by
    intro name index held
    obtain ⟨before, placed⟩ := schema.placed name index held
    rw [Table.get_set]
    split
    · exact ⟨shape, rfl⟩
    · exact ⟨before, placed⟩

/-- `CREATE TABLE IF NOT EXISTS`. -/
def createTable (schema : Schema) (table : String) (columns : List (String × ColumnSpec))
    (primaryKey : List String) : Except DdlError Schema :=
  if (schema.tables.get table).isSome then .ok schema
  else if (schema.indexes.get table).isSome then .error (.nameTaken table)
  else if (columns.map Prod.fst).Nodup then
    .ok (schema.put table ⟨Table.ofList columns, primaryKey⟩)
  else .error (.duplicateColumns table)

/-- `DROP TABLE`, which takes the table's indexes with it. -/
def dropTable (schema : Schema) (table : String) : Except DdlError Schema :=
  if (schema.tables.get table).isSome then
    .ok {
      tables := schema.tables.remove table
      indexes := schema.indexes.retain fun _ index => index.table != table
      placed := by
        intro name index held
        rw [Table.get_retain, Option.filter_eq_some_iff] at held
        obtain ⟨shape, placed⟩ := schema.placed name index held.1
        refine ⟨shape, ?_⟩
        rw [Table.get_remove, if_neg (bne_iff_ne.mp held.2)]
        exact placed }
  else .error (.noTable table)

/-- `ALTER TABLE ADD COLUMN`. -/
def addColumn (schema : Schema) (table column : String) (spec : ColumnSpec) :
    Except DdlError Schema :=
  match schema.tables.get table with
  | none => .error (.noTable table)
  | some shape =>
      if (shape.columns.get column).isSome then .error (.duplicateColumn table column)
      else .ok (schema.put table { shape with columns := shape.columns.set column spec })

/-- `ALTER TABLE DROP COLUMN`, refused for a column of the key or of an index. -/
def dropColumn (schema : Schema) (table column : String) : Except DdlError Schema :=
  match schema.tables.get table with
  | none => .error (.noTable table)
  | some shape =>
      if (shape.columns.get column).isNone then .error (.noColumn table column)
      else if column ∈ shape.primaryKey then .error (.keyColumn table column)
      else if schema.indexes.any (fun _ index => index.table == table && column ∈ index.columns)
      then .error (.indexed table column)
      else .ok (schema.put table { shape with columns := shape.columns.remove column })

/-- `CREATE INDEX IF NOT EXISTS`. -/
def createIndex (schema : Schema) (name table : String) (columns : List String) :
    Except DdlError Schema :=
  if (schema.indexes.get name).isSome then .ok schema
  else if (schema.tables.get name).isSome then .error (.nameTaken name)
  else if found : (schema.tables.get table).isSome then
    match columns.find? (fun column => (schema.column table column).isNone) with
    | some column => .error (.noColumn table column)
    | none =>
        .ok {
          tables := schema.tables
          indexes := schema.indexes.set name ⟨table, columns⟩
          placed := by
            intro other index held
            rw [Table.get_set] at held
            split at held
            · cases held
              exact Option.isSome_iff_exists.mp found
            · exact schema.placed other index held }
  else .error (.noTable table)

/-- `DROP INDEX IF EXISTS`. -/
def dropIndex (schema : Schema) (name : String) : Schema where
  tables := schema.tables
  indexes := schema.indexes.remove name
  placed := by
    intro other index held
    rw [Table.get_remove] at held
    split at held
    · cases held
    · exact schema.placed other index held

/-- `DROP INDEX` for every index over a table that passes the test. -/
def dropIndexesWhere (schema : Schema) (table : String) (test : String → IndexShape → Bool) :
    Schema :=
  (schema.indexesOn table).foldl (fun schema held =>
    if test held.1 held.2 then schema.dropIndex held.1 else schema) schema

variable {schema next : Schema}

theorem mem_indexesOn {table name : String} {index : IndexShape} :
    (name, index) ∈ schema.indexesOn table ↔
      schema.indexes.get name = some index ∧ index.table = table := by
  simp only [indexesOn, List.mem_map, List.mem_filter, Table.get_eq_some_iff]
  constructor
  · rintro ⟨⟨other, held⟩, ⟨member, here⟩, same⟩
    cases same
    exact ⟨member, beq_iff_eq.mp here⟩
  · rintro ⟨member, here⟩
    exact ⟨⟨name, index⟩, ⟨member, beq_iff_eq.mpr here⟩, rfl⟩

@[simp]
theorem indexes_put (table : String) (shape : TableShape) :
    (schema.put table shape).indexes = schema.indexes := rfl

@[simp]
theorem column_put (table : String) (shape : TableShape) (other name : String) :
    (schema.put table shape).column other name =
      if other = table then shape.columns.get name else schema.column other name := by
  unfold column put
  simp only [Table.get_set]
  split <;> rfl

@[simp]
theorem primaryKey_put (table : String) (shape : TableShape) (other : String) :
    (schema.put table shape).primaryKey other =
      if other = table then some shape.primaryKey else schema.primaryKey other := by
  unfold primaryKey put
  simp only [Table.get_set]
  split <;> rfl

@[simp]
theorem column_dropIndex (name table other : String) :
    (schema.dropIndex name).column table other = schema.column table other := rfl

@[simp]
theorem primaryKey_dropIndex (name table : String) :
    (schema.dropIndex name).primaryKey table = schema.primaryKey table := rfl

@[simp]
theorem tables_dropIndexesWhere (table : String) (test : String → IndexShape → Bool) :
    (schema.dropIndexesWhere table test).tables = schema.tables := by
  have kept (list : List (String × IndexShape)) (start : Schema) :
      (list.foldl (fun schema held =>
        if test held.1 held.2 then schema.dropIndex held.1 else schema) start).tables =
        start.tables := by
    induction list generalizing start with
    | nil => rfl
    | cons held rest ih =>
        rw [List.foldl_cons, ih]
        split <;> rfl
  exact kept _ schema

@[simp]
theorem get_dropIndexesWhere (table : String) (test : String → IndexShape → Bool) (name : String) :
    (schema.dropIndexesWhere table test).indexes.get name =
      (schema.indexes.get name).filter fun index => !(index.table == table && test name index) := by
  have swept (list : List (String × IndexShape)) (start : Schema) :
      (list.foldl (fun schema held =>
        if test held.1 held.2 then schema.dropIndex held.1 else schema) start).indexes.get name =
        if ∃ held ∈ list, held.1 = name ∧ test held.1 held.2 = true then none
        else start.indexes.get name := by
    induction list generalizing start with
    | nil => simp
    | cons held rest ih =>
        rw [List.foldl_cons, ih]
        by_cases later : ∃ held ∈ rest, held.1 = name ∧ test held.1 held.2 = true
        · rw [if_pos later, if_pos]
          obtain ⟨other, member, passed⟩ := later
          exact ⟨other, List.mem_cons_of_mem _ member, passed⟩
        · rw [if_neg later]
          by_cases passed : test held.1 held.2 = true
          · rw [if_pos passed]
            by_cases here : held.1 = name
            · rw [if_pos ⟨held, List.mem_cons_self, here, passed⟩]
              simp [dropIndex, here]
            · rw [if_neg]
              · simp [dropIndex, Ne.symm here]
              · rintro ⟨other, member, named, _⟩
                rcases List.mem_cons.mp member with rfl | member
                · exact here named
                · exact later ⟨other, member, named, ‹_›⟩
          · rw [if_neg passed, if_neg]
            rintro ⟨other, member, named, tested⟩
            rcases List.mem_cons.mp member with rfl | member
            · exact passed tested
            · exact later ⟨other, member, named, tested⟩
  rw [dropIndexesWhere, swept]
  cases found : schema.indexes.get name with
  | none => simp
  | some index =>
      by_cases hit : index.table = table ∧ test name index = true
      · rw [if_pos ⟨(name, index), mem_indexesOn.mpr ⟨found, hit.1⟩, rfl, hit.2⟩]
        simp [Option.filter, hit.1, hit.2]
      · rw [if_neg]
        · have spared : (!(index.table == table && test name index)) = true := by
            rw [Bool.not_eq_true', ← Bool.not_eq_true, Bool.and_eq_true, beq_iff_eq]
            exact hit
          rw [Option.filter_some, if_pos spared]
        · rintro ⟨⟨other, held⟩, member, same, passed⟩
          cases same
          obtain ⟨foundHeld, placed⟩ := mem_indexesOn.mp member
          cases found.symm.trans foundHeld
          exact hit ⟨placed, passed⟩

/-- What a statement on columns leaves of everything but one column. -/
structure Alters (schema next : Schema) (table column : String) (spec : Option ColumnSpec) :
    Prop where
  here : next.column table column = spec
  elsewhere : ∀ other name, (other, name) ≠ (table, column) →
    next.column other name = schema.column other name
  keys : ∀ other, next.primaryKey other = schema.primaryKey other
  indexes : next.indexes = schema.indexes

theorem Alters.refl (schema : Schema) (table column : String) : Alters schema schema table column
    (schema.column table column) := ⟨rfl, fun _ _ _ => rfl, fun _ => rfl, rfl⟩

/-- The keys of the tables, and the columns in them, are as they were. -/
structure KeepsKeys (schema next : Schema) : Prop where
  keys : ∀ table, next.primaryKey table = schema.primaryKey table
  columns : ∀ {table column : String} {key : List String} {spec : ColumnSpec},
    schema.primaryKey table = some key → column ∈ key → schema.column table column = some spec →
    next.column table column = some spec

theorem KeepsKeys.refl : KeepsKeys schema schema := ⟨fun _ => rfl, fun _ _ held => held⟩

theorem KeepsKeys.trans {middle : Schema} (first : KeepsKeys schema middle)
    (second : KeepsKeys middle next) : KeepsKeys schema next where
  keys table := (second.keys table).trans (first.keys table)
  columns keyed member held :=
    second.columns ((first.keys _).trans keyed) member (first.columns keyed member held)

/-- A statement keeps the keys when it alters no column of one that is there. -/
theorem Alters.keepsKeys {table column : String} {spec : Option ColumnSpec}
    (altered : Alters schema next table column spec)
    (spared : ∀ key held, schema.primaryKey table = some key → column ∈ key →
      schema.column table column = some held → spec = some held) : KeepsKeys schema next where
  keys := altered.keys
  columns := by
    intro other name key held keyed member found
    by_cases here : (other, name) = (table, column)
    · cases here
      rw [altered.here]
      exact spared key held keyed member found
    · rw [altered.elsewhere other name here]
      exact found

/-- A table that exists already is left as it is; a new one comes with its columns and key. -/
theorem createTable_ok {table : String} {columns : List (String × ColumnSpec)}
    {primaryKey : List String} (created : schema.createTable table columns primaryKey = .ok next) :
    (next = schema ∧ (schema.primaryKey table).isSome = true) ∨
      (schema.primaryKey table = none ∧ (columns.map Prod.fst).Nodup ∧
        next = schema.put table ⟨Table.ofList columns, primaryKey⟩) := by
  unfold createTable at created
  split at created
  · next exists_ =>
      cases created
      exact .inl ⟨rfl, by simpa [Schema.primaryKey] using exists_⟩
  · next absent =>
      split at created
      · cases created
      · split at created
        · next distinct =>
            cases created
            exact .inr ⟨by simpa [Schema.primaryKey] using absent, distinct, rfl⟩
        · cases created

theorem addColumn_ok {table column : String} {spec : ColumnSpec}
    (added : schema.addColumn table column spec = .ok next) :
    Alters schema next table column (some spec) := by
  unfold addColumn at added
  split at added
  · cases added
  · next shape found =>
      split at added
      · cases added
      · cases added
        constructor
        · simp
        · intro other name apart
          rw [column_put]
          split
          · next here =>
              subst here
              have differ : name ≠ column := fun same => apart (by rw [same])
              simp [Schema.column, found, differ]
          · rfl
        · intro other
          rw [primaryKey_put]
          split
          · next here => simp [Schema.primaryKey, here, found]
          · rfl
        · rfl

theorem dropColumn_ok {table column : String}
    (dropped : schema.dropColumn table column = .ok next) :
    Alters schema next table column none ∧
      ∀ key, schema.primaryKey table = some key → column ∉ key := by
  unfold dropColumn at dropped
  split at dropped
  · cases dropped
  · next shape found =>
      split at dropped
      · cases dropped
      split at dropped
      · cases dropped
      next outside =>
      split at dropped
      · cases dropped
      cases dropped
      refine ⟨?_, by simp [Schema.primaryKey, found, outside]⟩
      constructor
      · simp
      · intro other name apart
        rw [column_put]
        split
        · next here =>
            subst here
            have differ : name ≠ column := fun same => apart (by rw [same])
            simp [Schema.column, found, differ]
        · rfl
      · intro other
        rw [primaryKey_put]
        split
        · next here => simp [Schema.primaryKey, here, found]
        · rfl
      · rfl

/-- Tables that are dropped are gone, and no other. -/
theorem dropTables_ok {names : List String} (dropped : names.foldlM dropTable schema = .ok next)
    (name : String) :
    next.tables.get name = if name ∈ names then none else schema.tables.get name := by
  induction names generalizing schema with
  | nil =>
      cases dropped
      simp
  | cons first rest ih =>
      obtain ⟨middle, stepped, dropped⟩ := foldlM_cons_ok.mp dropped
      unfold dropTable at stepped
      split at stepped
      · cases stepped
        rw [ih dropped, Table.get_remove]
        by_cases here : name = first
        · simp [here]
        · simp [here]
      · cases stepped

/-- Where all are, none is left. -/
theorem dropTables_all (dropped : schema.tables.keys.foldlM dropTable schema = .ok next)
    (name : String) : next.tables.get name = none := by
  rw [dropTables_ok dropped]
  split
  · rfl
  · next absent =>
      cases found : schema.tables.get name with
      | none => rfl
      | some shape => exact absurd ((Table.mem_keys_iff _ _).mpr ⟨shape, found⟩) absent

/-- An index that exists under the name is left as it is, whatever it is over. -/
theorem createIndex_ok {name table : String} {columns : List String}
    (created : schema.createIndex name table columns = .ok next) :
    next.tables = schema.tables ∧ ∀ other, next.indexes.get other =
      if other = name then some ((schema.indexes.get name).getD ⟨table, columns⟩)
      else schema.indexes.get other := by
  unfold createIndex at created
  split at created
  · next there =>
      cases created
      refine ⟨rfl, ?_⟩
      intro other
      obtain ⟨index, held⟩ := Option.isSome_iff_exists.mp there
      split
      · next here => rw [here, held, Option.getD_some]
      · rfl
  · next absent =>
      have free : schema.indexes.get name = none := by simpa using absent
      split at created
      · cases created
      split at created
      · split at created
        · cases created
        · cases created
          refine ⟨rfl, ?_⟩
          intro other
          simp only [Table.get_set, free, Option.getD_none]
      · cases created

end Schema

end Hekla.Library
