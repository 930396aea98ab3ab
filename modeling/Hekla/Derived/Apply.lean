import Hekla.Derived.Catalog

/-!
# Bringing the schema to a program

One transaction drops the indexes that name a column about to go, takes every
change in turn, and last makes the indexes of each table those its definition
asks for.  The verdict on a column comes from the catalog; whether the column is
there comes from the schema.
-/

namespace Hekla.Derived

open Library

/-- What the transaction writes: the schema and the catalog. -/
structure Tx where
  schema : Schema
  catalog : Catalog

def hasColumn (schema : Schema) (table column : String) : Bool :=
  (schema.column table column).isSome

/-- `ALTER TABLE ADD COLUMN`, but only when the schema does not have it already. -/
def addColumn (schema : Schema) (table : TableDef) (column : ColumnDef) :
    Except ApplyError Schema :=
  if hasColumn schema table.name column.name then .ok schema
  else (schema.addColumn table.name column.name column.spec).mapError .ddl

def dropColumn (schema : Schema) (table column : String) : Except ApplyError Schema :=
  if hasColumn schema table column then (schema.dropColumn table column).mapError .ddl
  else .ok schema

/-- Whether a change takes its column away, if only to bring it back. -/
def Change.replaces (change : Change) : Bool :=
  change.verdict == .drop || change.verdict == .reshape

/-- Drop the indexes over a table that name a column. -/
def dropIndexesNaming (schema : Schema) (table column : String) : Schema :=
  schema.dropIndexesWhere table fun _ index => index.columns.contains column

/-- The indexes that stand in the way of the changes go first. -/
def dropIndexes (changes : List Change) (schema : Schema) : Schema :=
  changes.foldl (fun schema change =>
    if change.replaces then dropIndexesNaming schema change.table change.column else schema) schema

/-- A column of the program by its names. -/
def find (tables : List TableDef) (table column : String) :
    Except ApplyError (TableDef × ColumnDef) :=
  match tables.find? (fun held => held.name == table) with
  | none => .error (.noDerivedTable table)
  | some def_ =>
      match def_.columns.find? (fun held => held.name == column) with
      | none => .error (.noColumn column)
      | some held => .ok (def_, held)

/-- Put a column of the program in place, and record that it holds its seed only. -/
def refill (tables : List TableDef) (current : Catalog) (tx : Tx) (change : Change) :
    Except ApplyError Tx := do
  let held ← find tables change.table change.column
  let schema ← addColumn tx.schema held.1 held.2
  match current.get change.key with
  | none => .error (.noColumn change.column)
  | some row => .ok ⟨schema, tx.catalog.set change.key { row with builtTo := 0 }⟩

/-- One change. -/
def act (tables : List TableDef) (current : Catalog) (tx : Tx) (change : Change) :
    Except ApplyError Tx :=
  match change.verdict with
  | .upToDate => .ok tx
  | .drop => do
      let schema ← dropColumn tx.schema change.table change.column
      .ok ⟨schema, tx.catalog.remove change.key⟩
  | .reshape => do
      let schema ← dropColumn tx.schema change.table change.column
      refill tables current { tx with schema } change
  | .add | .refold => refill tables current tx change

/-- The indexes of a table by name, as its definition asks for them. -/
def wantedIndexes (table : TableDef) : List (String × List String) :=
  table.indexes.map fun index => (table.indexName index, index.columns)

/-- Drop the indexes of a table that are the store's own and no longer asked for. -/
def dropUnwanted (schema : Schema) (table : TableDef) : Schema :=
  schema.dropIndexesWhere table.name fun name _ =>
    owned table.name name && !(wantedIndexes table).any (fun wanted => wanted.1 == name)

def syncTable (schema : Schema) (table : TableDef) : Except DdlError Schema :=
  (wantedIndexes table).foldlM (fun schema wanted =>
    schema.createIndex wanted.1 table.name wanted.2) (dropUnwanted schema table)

def syncIndexes (tables : List TableDef) (schema : Schema) : Except ApplyError Schema :=
  (tables.foldlM syncTable schema).mapError .ddl

/-- What the transaction of `FoldStore::apply` makes of the store, if nothing in it fails. -/
def applied (digest : Digest) (tables : List TableDef) (tx : Tx) :
    Except ApplyError (List Change × Tx) := do
  let current ← catalog digest tables
  let changes := reconcile tx.catalog current
  let changed ← changes.foldlM (act tables current)
    { tx with schema := dropIndexes changes tx.schema }
  let schema ← syncIndexes tables changed.schema
  return (changes, { changed with schema })

/-! ## The columns -/

theorem addColumn_ok {schema next : Schema} {table : TableDef} {column : ColumnDef}
    (added : addColumn schema table column = .ok next) :
    schema.Alters next table.name column.name
      (some ((schema.column table.name column.name).getD column.spec)) := by
  unfold addColumn hasColumn at added
  split at added
  · next there =>
      cases added
      obtain ⟨spec, held⟩ := Option.isSome_iff_exists.mp there
      have same := Schema.Alters.refl schema table.name column.name
      rw [held, Option.getD_some, ← held]
      exact same
  · next absent =>
      have free : schema.column table.name column.name = none := by simpa using absent
      rw [free, Option.getD_none]
      exact Schema.addColumn_ok (mapError_ok.mp added)

theorem dropColumn_ok {schema next : Schema} {table column : String}
    (dropped : dropColumn schema table column = .ok next) :
    schema.Alters next table column none ∧ schema.KeepsKeys next := by
  unfold dropColumn hasColumn at dropped
  split at dropped
  · obtain ⟨altered, outside⟩ := Schema.dropColumn_ok (mapError_ok.mp dropped)
    refine ⟨altered, altered.keepsKeys ?_⟩
    intro key held keyed member _
    exact absurd member (outside key keyed)
  · next absent =>
      cases dropped
      have free : schema.column table column = none := by simpa using absent
      exact ⟨free ▸ Schema.Alters.refl schema table column, .refl⟩

theorem addColumn_keepsKeys {schema next : Schema} {table : TableDef} {column : ColumnDef}
    (added : addColumn schema table column = .ok next) : schema.KeepsKeys next := by
  refine (addColumn_ok added).keepsKeys ?_
  intro key held _ _ found
  rw [found, Option.getD_some]

theorem find_ok {tables : List TableDef} {table column : String} {held : TableDef × ColumnDef}
    (found : find tables table column = .ok held) :
    held ∈ columnsOf tables ∧ columnKey held = (table, column) := by
  unfold find at found
  split at found
  · cases found
  · next def_ foundTable =>
      split at found
      · cases found
      · next kept foundColumn =>
          cases found
          have named := List.find?_some foundTable
          have namedColumn := List.find?_some foundColumn
          refine ⟨mem_columnsOf.mpr ⟨List.mem_of_find?_eq_some foundTable,
            List.mem_of_find?_eq_some foundColumn⟩, ?_⟩
          exact Prod.ext (beq_iff_eq.mp named) (beq_iff_eq.mp namedColumn)

/-- What the schema and the catalog say of one column. -/
def shown (tx : Tx) (key : String × String) : Option ColumnSpec × Option Recorded :=
  (tx.schema.column key.1 key.2, tx.catalog.get key)

/-- What a change leaves of what was shown of its column. -/
def outcome (verdict : Verdict) (spec : ColumnSpec) (row : Recorded)
    (was : Option ColumnSpec × Option Recorded) : Option ColumnSpec × Option Recorded :=
  match verdict with
  | .upToDate => was
  | .drop => (none, none)
  | .reshape => (some spec, some { row with builtTo := 0 })
  | .add | .refold => (some (was.1.getD spec), some { row with builtTo := 0 })

/-- What one step on a column leaves of everything but that column. -/
structure Frames (tx next : Tx) (key : String × String) : Prop where
  apart : ∀ other, other ≠ key → shown next other = shown tx other
  keys : tx.schema.KeepsKeys next.schema
  indexes : next.schema.indexes = tx.schema.indexes

theorem frames_of_alters {tx next : Tx} (key : String × String) {spec : Option ColumnSpec}
    (altered : tx.schema.Alters next.schema key.1 key.2 spec)
    (keys : tx.schema.KeepsKeys next.schema)
    (catalog : ∀ other, other ≠ key → next.catalog.get other = tx.catalog.get other) :
    Frames tx next key where
  apart := by
    intro other differ
    exact Prod.ext (altered.elsewhere other.1 other.2 differ) (catalog other differ)
  keys := keys
  indexes := altered.indexes

theorem Frames.refl (tx : Tx) (key : String × String) : Frames tx tx key :=
  ⟨fun _ _ => rfl, .refl, rfl⟩

theorem Frames.trans {tx middle next : Tx} {key : String × String} (first : Frames tx middle key)
    (second : Frames middle next key) : Frames tx next key where
  apart other differ := (second.apart other differ).trans (first.apart other differ)
  keys := first.keys.trans second.keys
  indexes := second.indexes.trans first.indexes

theorem refill_ok {tables : List TableDef} {current : Catalog} {tx next : Tx} {change : Change}
    (refilled : refill tables current tx change = .ok next) :
    Frames tx next change.key ∧
      ∃ held ∈ columnsOf tables, columnKey held = change.key ∧
        ∃ row, current.get change.key = some row ∧
          shown next change.key =
            (some ((shown tx change.key).1.getD held.2.spec), some { row with builtTo := 0 }) := by
  unfold refill at refilled
  obtain ⟨held, found, refilled⟩ := bind_ok.mp refilled
  obtain ⟨schema, added, refilled⟩ := bind_ok.mp refilled
  obtain ⟨member, named⟩ := find_ok found
  obtain ⟨namedTable, namedColumn⟩ := Prod.mk.inj named
  split at refilled
  · cases refilled
  · next row identified =>
      cases refilled
      have altered := addColumn_ok added
      have namedKey : columnKey held = change.key := named
      have at_ : held.1.name = change.key.1 ∧ held.2.name = change.key.2 :=
        ⟨namedTable, namedColumn⟩
      rw [at_.1, at_.2] at altered
      refine ⟨frames_of_alters change.key altered (addColumn_keepsKeys added) ?_,
        held, member, namedKey, row, identified, ?_⟩
      · intro other differ
        simp [differ]
      · exact Prod.ext altered.here (by simp [shown])

theorem act_ok {tables : List TableDef} {current : Catalog} {tx next : Tx} {change : Change}
    (acted : act tables current tx change = .ok next) :
    Frames tx next change.key ∧
      ((change.verdict = .upToDate ∧ shown next change.key = shown tx change.key) ∨
        (change.verdict = .drop ∧ shown next change.key = (none, none)) ∨
        ∃ held ∈ columnsOf tables, columnKey held = change.key ∧
          ∃ row, current.get change.key = some row ∧
            shown next change.key =
              outcome change.verdict held.2.spec row (shown tx change.key)) := by
  unfold act at acted
  split at acted
  · next judged =>
      cases acted
      exact ⟨.refl tx _, .inl ⟨judged, rfl⟩⟩
  · next judged =>
      obtain ⟨schema, dropped, acted⟩ := bind_ok.mp acted
      cases acted
      obtain ⟨altered, keys⟩ := dropColumn_ok dropped
      refine ⟨frames_of_alters change.key altered keys ?_, .inr (.inl ⟨judged, ?_⟩)⟩
      · intro other differ
        simp [differ]
      · exact Prod.ext altered.here (by simp [shown])
  · next judged =>
      obtain ⟨schema, dropped, acted⟩ := bind_ok.mp acted
      obtain ⟨altered, keys⟩ := dropColumn_ok dropped
      obtain ⟨framed, held, member, named, row, identified, shows⟩ := refill_ok acted
      have bare : Frames tx { tx with schema } change.key :=
        frames_of_alters change.key altered keys fun _ _ => rfl
      refine ⟨bare.trans framed, .inr (.inr ⟨held, member, named, row, identified, ?_⟩)⟩
      have gone : (shown { tx with schema } change.key).1 = none := altered.here
      rw [shows, gone, judged]
      rfl
  · next judged =>
      obtain ⟨framed, held, member, named, row, identified, shows⟩ := refill_ok acted
      refine ⟨framed, .inr (.inr ⟨held, member, named, row, identified, ?_⟩)⟩
      rw [shows, judged]
      rfl
  · next judged =>
      obtain ⟨framed, held, member, named, row, identified, shows⟩ := refill_ok acted
      refine ⟨framed, .inr (.inr ⟨held, member, named, row, identified, ?_⟩)⟩
      rw [shows, judged]
      rfl

theorem verdict_ne_drop (was : Option Recorded) (row : Recorded) : verdict was row ≠ .drop := by
  unfold verdict
  repeat' split
  all_goals exact nofun

theorem act_local (tables : List TableDef) (current : Catalog) :
    Local (act tables current) Change.key shown (fun _ => True) (fun _ => True) where
  keeps := fun _ _ _ => trivial
  apart := fun _ _ acted differ => (act_ok acted).1.apart _ differ

section Changes

variable {digest : Digest} {tables : List TableDef} {current : Catalog} {before after : Tx}

/-- The whole pass keeps the keys, and touches no index. -/
theorem changes_frame {changes : List Change}
    (passed : changes.foldlM (act tables current) before = .ok after) :
    before.schema.KeepsKeys after.schema ∧ after.schema.indexes = before.schema.indexes := by
  refine pass_keeps (fun _ => True)
    (fun tx => before.schema.KeepsKeys tx.schema ∧
      tx.schema.indexes = before.schema.indexes) ?_ (fun _ _ => trivial) ⟨.refl, rfl⟩ passed
  rintro tx next change - ⟨keys, indexes⟩ acted
  have framed := (act_ok acted).1
  exact ⟨keys.trans framed.keys, framed.indexes.trans indexes⟩

/-- A column of the program ends as its verdict says. -/
theorem changes_held (distinct : (tables.map TableDef.name).Nodup)
    (passed : (reconcile before.catalog current).foldlM (act tables current) before = .ok after)
    {held : TableDef × ColumnDef} (member : held ∈ columnsOf tables) {row : Recorded}
    (identified : current.get (columnKey held) = some row) :
    shown after (columnKey held) =
      outcome (verdict (before.catalog.get (columnKey held)) row) held.2.spec row
        (shown before (columnKey held)) := by
  have listed := (mem_reconcile before.catalog current
    ⟨held.1.name, held.2.name, row.fold, verdict (before.catalog.get (columnKey held)) row⟩).mpr
    (.inl ⟨row, identified, rfl, rfl⟩)
  obtain ⟨tx, next, -, acted, starts, ends⟩ := (act_local tables current).at_item
    (fun _ _ => trivial) trivial (nodup_reconcile before.catalog current) passed listed
  have starts : shown tx (columnKey held) = shown before (columnKey held) := starts
  have ends : shown after (columnKey held) = shown next (columnKey held) := ends
  rw [ends, ← starts]
  rcases (act_ok acted).2 with ⟨judged, shows⟩ | ⟨judged, shows⟩ |
    ⟨other, memberOther, named, rowOther, identifiedOther, shows⟩
  · have judged : verdict (before.catalog.get (columnKey held)) row = .upToDate := judged
    rw [judged]
    exact shows
  · exact absurd judged (verdict_ne_drop _ _)
  · have same : other = held :=
      List.inj_on_of_nodup_map (nodup_columnKeys distinct) memberOther member named
    cases identified.symm.trans identifiedOther
    rw [same] at shows
    exact shows

/-- A recorded column the program does not have is gone, and no other is touched. -/
theorem changes_gone
    (passed : (reconcile before.catalog current).foldlM (act tables current) before = .ok after)
    {key : String × String} (gone : current.get key = none) :
    shown after key =
      if (before.catalog.get key).isSome then (none, none) else shown before key := by
  cases was : before.catalog.get key with
  | none =>
      refine (act_local tables current).untouched (fun _ _ => trivial) trivial passed ?_
      intro member
      obtain ⟨change, listed, rfl⟩ := List.mem_map.mp member
      rcases (mem_reconcile _ _ _).mp listed with ⟨row, held, -⟩ | ⟨-, row, held, -⟩
      · rw [gone] at held
        cases held
      · rw [was] at held
        cases held
  | some row =>
      have listed := (mem_reconcile before.catalog current ⟨key.1, key.2, row.fold, .drop⟩).mpr
        (.inr ⟨gone, row, was, rfl, rfl⟩)
      obtain ⟨tx, next, -, acted, -, ends⟩ := (act_local tables current).at_item
        (fun _ _ => trivial) trivial (nodup_reconcile before.catalog current) passed listed
      have ends : shown after key = shown next key := ends
      rw [ends]
      rcases (act_ok acted).2 with ⟨judged, -⟩ | ⟨-, shows⟩ |
        ⟨_, _, _, row, identified, _⟩
      · cases judged
      · exact shows
      · have identified : current.get key = some row := identified
        rw [gone] at identified
        cases identified

end Changes

/-! ## The indexes -/

/-- Whether a change needs an index out of its way. -/
def Change.dooms (change : Change) (index : IndexShape) : Bool :=
  change.replaces && index.table == change.table && index.columns.contains change.column

@[simp]
theorem tables_dropIndexes (changes : List Change) (schema : Schema) :
    (dropIndexes changes schema).tables = schema.tables := by
  induction changes generalizing schema with
  | nil => rfl
  | cons change rest ih =>
      refine (ih _).trans ?_
      dsimp only
      split
      · exact Schema.tables_dropIndexesWhere _ _
      · rfl

theorem get_dropIndexes (changes : List Change) (schema : Schema) (name : String) :
    (dropIndexes changes schema).indexes.get name =
      (schema.indexes.get name).filter fun index => !changes.any fun change => change.dooms index := by
  induction changes generalizing schema with
  | nil => cases found : schema.indexes.get name <;> simp [dropIndexes, found, Option.filter]
  | cons change rest ih =>
      have step : (if change.replaces then
            dropIndexesNaming schema change.table change.column else schema).indexes.get name =
          (schema.indexes.get name).filter fun index => !change.dooms index := by
        split
        · next replaces =>
            rw [dropIndexesNaming, Schema.get_dropIndexesWhere]
            simp [Change.dooms, replaces]
        · next spares =>
            cases schema.indexes.get name <;> simp [Change.dooms, spares, Option.filter]
      refine (ih _).trans ?_
      rw [step, Option.filter_filter]
      congr 1
      funext index
      rw [List.any_cons, Bool.not_or]

/-- What a table's definition makes of whatever stands under an index name. -/
def synced (table : TableDef) (name : String) (held : Option IndexShape) : Option IndexShape :=
  (held.filter fun index => !(index.table == table.name && (owned table.name name &&
      !(wantedIndexes table).any fun wanted => wanted.1 == name))).or
    (((wantedIndexes table).find? fun wanted => wanted.1 == name).map fun wanted =>
      ⟨table.name, wanted.2⟩)

theorem createIndexes_ok {table : String} {wanted : List (String × List String)}
    {schema next : Schema}
    (created : wanted.foldlM (fun schema wanted => schema.createIndex wanted.1 table wanted.2)
      schema = .ok next) :
    next.tables = schema.tables ∧ ∀ name, next.indexes.get name =
      (schema.indexes.get name).or ((wanted.find? fun wanted => wanted.1 == name).map fun wanted =>
        ⟨table, wanted.2⟩) := by
  induction wanted generalizing schema with
  | nil =>
      cases created
      simp
  | cons first rest ih =>
      obtain ⟨middle, made, created⟩ := foldlM_cons_ok.mp created
      obtain ⟨tables, indexes⟩ := Schema.createIndex_ok made
      obtain ⟨tablesRest, indexesRest⟩ := ih created
      refine ⟨tablesRest.trans tables, ?_⟩
      intro name
      rw [indexesRest, indexes, List.find?_cons]
      by_cases here : name = first.1
      · rw [if_pos here, here, BEq.rfl]
        cases schema.indexes.get first.1 <;> rfl
      · rw [if_neg here, beq_false_of_ne (Ne.symm here)]

theorem syncTable_ok {schema next : Schema} {table : TableDef}
    (done : syncTable schema table = .ok next) :
    next.tables = schema.tables ∧
      ∀ name, next.indexes.get name = synced table name (schema.indexes.get name) := by
  obtain ⟨tables, indexes⟩ := createIndexes_ok done
  refine ⟨tables.trans (Schema.tables_dropIndexesWhere _ _), ?_⟩
  intro name
  rw [indexes, dropUnwanted, Schema.get_dropIndexesWhere]
  rfl

end Hekla.Derived
