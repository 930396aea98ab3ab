import Hekla.Derived.Store

/-!
# Reconciliation over deploys

Whatever is recorded is in the schema as its signature and seed say, keys are
those of the tables' names, and indexes are the store's own and on their own
tables.  Every open keeps this; an apply keeps it where what it finds
unrecorded is as the program defines it, and that is also when it ends with the
store the program asks for.
-/

namespace Hekla.Derived

open Library

/-- Every index is one of the store's, on the table its name starts with. -/
def Placed (naming : Naming) (schema : Schema) : Prop :=
  ∀ name index, schema.indexes.get name = some index →
    index.table = naming.owner name ∧ owned index.table name = true

/-- Every table has the key its name stands for. -/
def Keyed (naming : Naming) (schema : Schema) : Prop :=
  ∀ table key, schema.primaryKey table = some key →
    key = (TableDef.keySpecs (naming.key table)).map Prod.fst ∧
      ∀ part ∈ TableDef.keySpecs (naming.key table),
        schema.column table part.1 = some part.2

/-- What the catalog records is what the schema has. -/
structure Faithful (naming : Naming) (tx : Tx) : Prop where
  recorded : ∀ key row, tx.catalog.get key = some row →
    tx.schema.column key.1 key.2 = some (naming.spec row)
  keyed : Keyed naming tx.schema
  indexed : Placed naming tx.schema

theorem Keyed.of_keepsKeys {naming : Naming} {schema next : Schema} (keyed : Keyed naming schema)
    (keeps : schema.KeepsKeys next) : Keyed naming next := by
  intro table key found
  have before := (keeps.keys table).symm.trans found
  obtain ⟨same, columns⟩ := keyed table key before
  refine ⟨same, fun part member => ?_⟩
  refine keeps.columns before ?_ (columns part member)
  exact same ▸ List.mem_map_of_mem member

/-! ## Opening -/

/-- A store of another format comes out empty. -/
theorem reformat_faithful {naming : Naming} {disk next : Disk}
    (current : disk.format = formatVersion → Faithful naming disk.tx)
    (done : reformat disk = .ok next) :
    next.format = formatVersion ∧ Faithful naming next.tx := by
  unfold reformat at done
  split at done
  · next same =>
      cases done
      exact ⟨same, current same⟩
  · obtain ⟨schema, dropped, done⟩ := bind_ok.mp done
    cases done
    have gone := Schema.dropTables_all (mapError_ok.mp dropped)
    refine ⟨rfl, ?_, ?_, ?_⟩
    · intro key row held
      exact absurd held (by simp [Disk.tx, Disk.recorded])
    · intro table key held
      have none_ : schema.primaryKey table = none := by simp [Schema.primaryKey, gone]
      cases none_.symm.trans held
    · intro name index held
      obtain ⟨shape, placed⟩ := schema.placed name index held
      cases (gone _).symm.trans placed

theorem createTable_faithful {naming : Naming} {catalog : Catalog} {schema next : Schema}
    {table : TableDef} (keyed : table.key = naming.key table.name)
    (faithful : Faithful naming ⟨schema, catalog⟩)
    (created : schema.createTable table.name table.specs table.primaryKey = .ok next) :
    Faithful naming ⟨next, catalog⟩ := by
  rcases Schema.createTable_ok created with ⟨rfl, -⟩ | ⟨absent, distinct, rfl⟩
  · exact faithful
  · have noColumn (column : String) : schema.column table.name column = none := by
      have : schema.tables.get table.name = none := by simpa [Schema.primaryKey] using absent
      simp [Schema.column, this]
    refine ⟨?_, ?_, faithful.indexed⟩
    · intro key row held
      have there := faithful.recorded key row held
      have elsewhere : key.1 ≠ table.name := by
        intro here
        rw [here] at there
        cases (noColumn key.2).symm.trans there
      simpa [elsewhere] using there
    · intro name key held
      rw [Schema.primaryKey_put] at held
      split at held
      · next here =>
          cases held
          rw [here, ← keyed]
          refine ⟨rfl, fun part member => ?_⟩
          rw [Schema.column_put, if_pos rfl, Table.get_ofList distinct]
          exact List.mem_append_left _ member
      · next elsewhere =>
          obtain ⟨same, columns⟩ := faithful.keyed name key held
          refine ⟨same, fun part member => ?_⟩
          rw [Schema.column_put, if_neg elsewhere]
          exact columns part member

theorem createTables_faithful {naming : Naming} (program : Deployable naming) {disk next : Disk}
    (faithful : Faithful naming disk.tx) (created : createTables program.tables disk = .ok next) :
    next.format = disk.format ∧ Faithful naming next.tx := by
  unfold createTables at created
  obtain ⟨schema, passed, created⟩ := bind_ok.mp created
  cases created
  refine ⟨rfl, ?_⟩
  refine pass_keeps (fun table => table ∈ program.tables)
    (fun schema => Faithful naming ⟨schema, disk.recorded⟩) ?_ (fun _ member => member)
    faithful (mapError_ok.mp passed)
  intro schema next table member kept done
  exact createTable_faithful (program.keyed table member) kept done

/-- What is true of the file in any state of a run. -/
def Disk.Sound (naming : Naming) (disk : Disk) : Prop :=
  disk.format = formatVersion → Faithful naming disk.tx

theorem openStages_sound {naming : Naming} (program : Deployable naming)
    {stage : Disk → Except ApplyError Disk} (member : stage ∈ openStages program.tables)
    {disk next : Disk} (sound : disk.Sound naming) (done : stage disk = .ok next) :
    next.Sound naming := by
  unfold openStages at member
  simp only [List.mem_cons, List.not_mem_nil, or_false] at member
  rcases member with rfl | rfl | rfl | rfl
  · intro _
    exact (reformat_faithful sound done).2
  · cases done
    exact sound
  · cases done
    exact sound
  · intro current
    unfold createTables at done
    obtain ⟨schema, passed, ended⟩ := bind_ok.mp done
    have same : next.format = disk.format := by
      cases ended
      rfl
    exact (createTables_faithful program (sound (same ▸ current)) done).2

theorem openStore_sound {naming : Naming} (program : Deployable naming) (interrupted : Option Nat)
    {disk : Disk} (sound : disk.Sound naming) :
    (openStore program.tables interrupted disk).2.Sound naming := by
  unfold openStore
  split
  · exact advance_keeps (Disk.Sound naming)
      (fun _ member _ _ => openStages_sound program member) sound
  · exact advance_keeps (Disk.Sound naming)
      (fun _ member _ _ => openStages_sound program (List.mem_of_mem_take member)) sound

/-- A store that was opened is of this format. -/
theorem openStore_format {tables : List TableDef} {interrupted : Option Nat} {disk : Disk}
    (opened : (openStore tables interrupted disk).1 = .ok ()) :
    (openStore tables interrupted disk).2.format = formatVersion := by
  unfold openStore at opened ⊢
  split at opened
  · obtain ⟨formatted, first, opened, same⟩ := advance_cons_ok opened
    have started : formatted.format = formatVersion := by
      unfold reformat at first
      split at first
      · next already =>
          cases first
          exact already
      · obtain ⟨schema, -, first⟩ := bind_ok.mp first
        cases first
        rfl
    have ended : (advance [createCheckpoint, createCatalog, createTables tables]
        formatted).2.format = formatVersion := by
      refine advance_keeps (fun disk : Disk => disk.format = formatVersion) ?_ started
      intro stage member disk next current done
      simp only [List.mem_cons, List.not_mem_nil, or_false] at member
      rcases member with rfl | rfl | rfl
      · cases done
        exact current
      · cases done
        exact current
      · obtain ⟨schema, -, done⟩ := bind_ok.mp done
        cases done
        exact current
    exact same ▸ ended
  · cases opened

/-! ## Indexes -/

theorem synced_of_asked {table : TableDef} {asked : IndexDef} (member : asked ∈ table.indexes)
    (held : Option IndexShape) :
    ∃ other ∈ table.indexes, table.indexName other = table.indexName asked ∧
      synced table (table.indexName asked) held = some (held.getD ⟨table.name, other.columns⟩) := by
  have wanted : (table.indexName asked, asked.columns) ∈ wantedIndexes table :=
    List.mem_map_of_mem member
  have some_ : ((wantedIndexes table).find? fun wanted =>
      wanted.1 == table.indexName asked).isSome = true := by
    rw [List.find?_isSome]
    exact ⟨_, wanted, BEq.rfl⟩
  have any_ : ((wantedIndexes table).any fun wanted =>
      wanted.1 == table.indexName asked) = true :=
    List.any_eq_true.mpr ⟨_, wanted, BEq.rfl⟩
  obtain ⟨first, found⟩ := Option.isSome_iff_exists.mp some_
  obtain ⟨other, memberOther, rfl⟩ := List.mem_map.mp (List.mem_of_find?_eq_some found)
  have named := List.find?_some found
  refine ⟨other, memberOther, beq_iff_eq.mp named, ?_⟩
  unfold synced
  rw [found, any_]
  cases held <;> simp [Option.filter]

theorem synced_of_unasked {table : TableDef} {name : String} {held : Option IndexShape}
    (unasked : ∀ asked ∈ table.indexes, name ≠ table.indexName asked) :
    synced table name held = held.filter fun index =>
      !(index.table == table.name && owned table.name name) := by
  have none_ : ((wantedIndexes table).find? fun wanted => wanted.1 == name) = none := by
    rw [List.find?_eq_none]
    intro wanted member
    obtain ⟨asked, memberAsked, rfl⟩ := List.mem_map.mp member
    simpa using Ne.symm (unasked asked memberAsked)
  have any_ : ((wantedIndexes table).any fun wanted => wanted.1 == name) = false := by
    rw [← List.isSome_find?, none_, Option.isSome_none]
  unfold synced
  rw [none_, any_]
  simp

section Sync

variable {naming : Naming} (program : Deployable naming)

/-- The indexes that are filed under a table by their names. -/
def filedUnder (naming : Naming) (schema : Schema) (table name : String) : Option IndexShape :=
  if naming.owner name = table then schema.indexes.get name else none

/-- What stands under a name after its table was synced stood there before, or was asked for. -/
theorem of_synced_eq_some {table : TableDef} {name : String} {held : Option IndexShape}
    {index : IndexShape} (stands : synced table name held = some index) :
    held = some index ∨
      ∃ asked ∈ table.indexes, name = table.indexName asked ∧ index = ⟨table.name, asked.columns⟩ := by
  by_cases askedFor : ∃ asked ∈ table.indexes, name = table.indexName asked
  · obtain ⟨asked, member, rfl⟩ := askedFor
    obtain ⟨other, memberOther, named, same⟩ := synced_of_asked member held
    rw [stands] at same
    cases held with
    | none => exact .inr ⟨other, memberOther, named.symm, Option.some.inj same⟩
    | some before => exact .inl same.symm
  · rw [not_exists] at askedFor
    rw [synced_of_unasked fun asked member same => askedFor asked ⟨member, same⟩,
      Option.filter_eq_some_iff] at stands
    exact .inl stands.1

theorem sync_local : Local syncTable TableDef.name (filedUnder naming)
    (fun table => table ∈ program.tables) (Placed naming) where
  keeps := by
    intro schema next table member placed done name index held
    rw [(syncTable_ok done).2] at held
    rcases of_synced_eq_some held with before | ⟨asked, memberAsked, rfl, rfl⟩
    · exact placed name index before
    · exact ⟨(program.placed table member asked memberAsked).symm,
        owned_indexName table asked memberAsked⟩
  apart := by
    intro schema next table other member placed done differ
    funext name
    unfold filedUnder
    split
    · next filed =>
        have unasked : ∀ asked ∈ table.indexes, name ≠ table.indexName asked := by
          rintro asked memberAsked rfl
          exact differ (filed.symm.trans (program.placed table member asked memberAsked))
        rw [(syncTable_ok done).2, synced_of_unasked unasked]
        cases held : schema.indexes.get name with
        | none => rfl
        | some index =>
            have elsewhere : index.table ≠ table.name := by
              rw [(placed name index held).1, filed]
              exact differ
            simp [Option.filter, elsewhere]
    · rfl

theorem syncIndexes_ok {schema next : Schema} (placed : Placed naming schema)
    (done : syncIndexes program.tables schema = .ok next) :
    next.tables = schema.tables ∧ Placed naming next ∧
      ∀ table ∈ program.tables, ∀ name, naming.owner name = table.name →
        next.indexes.get name = synced table name (schema.indexes.get name) := by
  have passed := mapError_ok.mp done
  refine ⟨?_, pass_keeps _ _ (sync_local program).keeps (fun _ member => member) placed passed, ?_⟩
  · refine pass_keeps (fun _ => True) (fun next : Schema => next.tables = schema.tables) ?_
      (fun _ _ => trivial) rfl passed
    intro middle last table _ kept synced
    exact (syncTable_ok synced).1.trans kept
  · intro table member name filed
    obtain ⟨before, after, -, acted, starts, ends⟩ := (sync_local program).at_item
      (fun _ member => member) placed program.distinct passed member
    have starts := congrFun starts name
    have ends := congrFun ends name
    unfold filedUnder at starts ends
    rw [if_pos filed, if_pos filed] at starts ends
    rw [ends, (syncTable_ok acted).2, starts]

end Sync

/-! ## Applying -/

section Apply

variable {naming : Naming} {program : Deployable naming} {current : Catalog}

theorem applied_ok {digest : Digest} {tables : List TableDef} {tx next : Tx}
    {changes : List Change} (implied : catalog digest tables = .ok current)
    (done : applied digest tables tx = .ok (changes, next)) :
    ∃ changed, (reconcile tx.catalog current).foldlM (act tables current)
        { tx with schema := dropIndexes (reconcile tx.catalog current) tx.schema } = .ok changed ∧
      syncIndexes tables changed.schema = .ok next.schema ∧ next.catalog = changed.catalog := by
  unfold applied at done
  obtain ⟨current', implied', done⟩ := bind_ok.mp done
  cases implied.symm.trans implied'
  obtain ⟨changed, passed, done⟩ := bind_ok.mp done
  obtain ⟨schema, synced, done⟩ := bind_ok.mp done
  cases done
  exact ⟨changed, passed, synced, rfl⟩

/-- What an apply that commits leaves: of each column what its verdict says, of
each index of its tables what is asked for or stood in no change's way. -/
structure Applied (program : Deployable naming) (current : Catalog) (before after : Tx) :
    Prop where
  held : ∀ held ∈ columnsOf program.tables, ∀ row, current.get (columnKey held) = some row →
    shown after (columnKey held) =
      outcome (verdict (before.catalog.get (columnKey held)) row) held.2.spec row
        (shown before (columnKey held))
  gone : ∀ key, current.get key = none → after.catalog.get key = none
  keeps : before.schema.KeepsKeys after.schema
  placed : Placed naming after.schema
  indexes : ∀ table ∈ program.tables, ∀ name, naming.owner name = table.name →
    after.schema.indexes.get name = synced table name ((before.schema.indexes.get name).filter
      fun index => !(reconcile before.catalog current).any fun change => change.dooms index)

theorem column_eq_of_tables_eq {schema next : Schema} (same : next.tables = schema.tables)
    (table column : String) : next.column table column = schema.column table column := by
  unfold Schema.column
  rw [same]

theorem primaryKey_eq_of_tables_eq {schema next : Schema} (same : next.tables = schema.tables)
    (table : String) : next.primaryKey table = schema.primaryKey table := by
  unfold Schema.primaryKey
  rw [same]

theorem keepsKeys_of_tables_eq {schema next : Schema} (same : next.tables = schema.tables) :
    schema.KeepsKeys next where
  keys := primaryKey_eq_of_tables_eq same
  columns _ _ found := (column_eq_of_tables_eq same _ _).trans found

theorem applied_spec {tx next : Tx} {changes : List Change} (placed : Placed naming tx.schema)
    (implied : program.catalog = .ok current)
    (done : applied program.digest program.tables tx = .ok (changes, next)) :
    Applied program current tx next := by
  obtain ⟨changed, passed, synced, catalogs⟩ := applied_ok implied done
  obtain ⟨keeps, untouched⟩ := changes_frame passed
  have tables := tables_dropIndexes (reconcile tx.catalog current) tx.schema
  have dropped (name : String) := get_dropIndexes (reconcile tx.catalog current) tx.schema name
  have placedChanged : Placed naming changed.schema := by
    intro name index held
    rw [untouched, dropped, Option.filter_eq_some_iff] at held
    exact placed name index held.1
  obtain ⟨tablesNext, placedNext, indexes⟩ := syncIndexes_ok program placedChanged synced
  have shownNext (key : String × String) : shown next key = shown changed key :=
    Prod.ext (column_eq_of_tables_eq tablesNext key.1 key.2) (by rw [shown, shown, catalogs])
  have shownFirst (key : String × String) :
      shown { tx with schema := dropIndexes (reconcile tx.catalog current) tx.schema } key =
        shown tx key :=
    Prod.ext (column_eq_of_tables_eq tables key.1 key.2) rfl
  refine ⟨?_, ?_, ?_, placedNext, ?_⟩
  · intro held member row identified
    rw [shownNext, changes_held program.distinct passed member identified, shownFirst]
  · intro key gone
    have ended := changes_gone passed gone
    have catalogAt : next.catalog.get key = (shown changed key).2 := by rw [← shownNext]; rfl
    rw [catalogAt, ended]
    dsimp only
    split
    · rfl
    · next absent => simpa [shown] using absent
  · exact (keepsKeys_of_tables_eq tables).trans (keeps.trans (keepsKeys_of_tables_eq tablesNext))
  · intro table member name filed
    rw [indexes table member name filed, untouched, dropped]

/-- Every column of a program whose catalog could be made has its identity there. -/
theorem identified (implied : program.catalog = .ok current) {held : TableDef × ColumnDef}
    (member : held ∈ columnsOf program.tables) :
    ∃ row, current.get (columnKey held) = some row ∧ naming.spec row = held.2.spec := by
  have mapped := implied
  unfold Deployable.catalog catalog at mapped
  cases results : (columnsOf program.tables).mapM (identity program.digest) with
  | error error => simp [results, Except.map] at mapped
  | ok entries =>
      obtain ⟨result, found⟩ := ok_of_mapM_ok results member
      have entered := found
      unfold identity at entered
      split at entered
      · cases entered
      · next entry listed =>
          cases entered
          refine ⟨_, (get_catalog program.distinct implied _ _).mpr ⟨held, member, found⟩, ?_⟩
          obtain ⟨sqlType, nullable⟩ := Prod.mk.inj (program.typed held member entry listed)
          simp [Naming.spec, ColumnDef.spec, Recorded.of, ← sqlType, ← nullable]

theorem held_of_identified (implied : program.catalog = .ok current) {key : String × String}
    {row : Recorded} (found : current.get key = some row) :
    ∃ held ∈ columnsOf program.tables, columnKey held = key ∧ row.builtTo = 0 := by
  obtain ⟨held, member, entered⟩ := (get_catalog program.distinct implied key row).mp found
  unfold identity at entered
  split at entered
  · cases entered
  · cases entered
    exact ⟨held, member, rfl, rfl⟩

/-- A change leaves a column and its row as the program has them exactly when
what was found spoke for the column. -/
theorem outcome_settles {spec : ColumnSpec} {row : Recorded}
    (was : Option ColumnSpec × Option Recorded)
    (recorded : ∀ before, was.2 = some before → was.1 = some (naming.spec before))
    (asked : naming.spec row = spec) :
    outcome (verdict was.2 row) spec row was =
        (some spec, some { row with builtTo := keptTo was.2 row }) ↔
      (∀ before ∈ was.2, before.foldHash ≠ row.foldHash ∨
        before = { row with builtTo := before.builtTo }) ∧
      (was.2.isSome = true ∨ ∀ held ∈ was.1, held = spec) := by
  obtain ⟨column, before⟩ := was
  cases before with
  | none => cases column <;> simp [verdict, outcome, keptTo]
  | some before =>
      have stands : column = some (naming.spec before) := recorded before rfl
      by_cases unmoved : before.foldHash = row.foldHash
      · have judged : verdict (some before) row = .upToDate := if_pos unmoved
        have kept : keptTo (some before) row = before.builtTo := if_pos unmoved
        simp only [judged, kept, outcome, stands, Prod.mk.injEq, Option.some.injEq]
        constructor
        · rintro ⟨-, same⟩
          exact ⟨fun other held => .inr (Option.some.inj held ▸ same), .inl rfl⟩
        · rintro ⟨same, -⟩
          have same := (same before rfl).resolve_left (absurd unmoved)
          refine ⟨?_, same⟩
          rw [← asked, same]
          rfl
      · have kept : keptTo (some before) row = 0 := if_neg unmoved
        have spoken : ∀ other ∈ some before, other.foldHash ≠ row.foldHash ∨
            other = { row with builtTo := other.builtTo } :=
          fun other held => .inl (Option.some.inj held ▸ unmoved)
        refine iff_of_true ?_ ⟨spoken, .inl rfl⟩
        rw [kept, verdict, if_neg unmoved]
        split
        · rfl
        · next sameSeed =>
            split
            · next sameSignature =>
                have sameSeed : before.seed = row.seed := not_not.mp sameSeed
                have same : naming.spec before = spec := by
                  rw [← asked, Naming.spec, Naming.spec, sameSeed, sameSignature]
                simp [outcome, stands, same]
            · rfl

/-- After an apply that commits, a column and its row are as the program has
them exactly when what was found spoke for the column. -/
theorem column_settles {before after : Disk} (faithful : Faithful naming before.tx)
    (implied : program.catalog = .ok current)
    (applied : Applied program current before.tx after.tx) {held : TableDef × ColumnDef}
    (member : held ∈ columnsOf program.tables) {row : Recorded}
    (found : current.get (columnKey held) = some row) :
    (after.schema.column held.1.name held.2.name = some held.2.spec ∧
        after.recorded.get (columnKey held) =
          some { row with builtTo := keptTo (before.recorded.get (columnKey held)) row }) ↔
      (∀ was ∈ before.recorded.get (columnKey held), was.foldHash ≠ row.foldHash ∨
        was = { row with builtTo := was.builtTo }) ∧
      ((before.recorded.get (columnKey held)).isSome = true ∨
        ∀ spec ∈ before.schema.column held.1.name held.2.name, spec = held.2.spec) := by
  obtain ⟨other, foundOther, asked⟩ := identified implied member
  cases found.symm.trans foundOther
  have settles := outcome_settles (shown before.tx (columnKey held))
    (fun was recorded => faithful.recorded _ was recorded) asked
  have ends : shown after.tx (columnKey held) =
      outcome (verdict (shown before.tx (columnKey held)).2 row) held.2.spec row
        (shown before.tx (columnKey held)) := applied.held held member row found
  rw [← ends, Prod.ext_iff] at settles
  exact settles

theorem indexName_inj {table : TableDef} {asked other : IndexDef}
    (same : table.indexName asked = table.indexName other) : asked.name = other.name := by
  unfold TableDef.indexName at same
  simpa using same

/-- Under a name that is asked for stands what stood there and was in no
change's way, or one of the indexes asked for by that name. -/
theorem index_of_asked {before after : Disk}
    (applied : Applied program current before.tx after.tx) {table : TableDef}
    (member : table ∈ program.tables) {asked : IndexDef} (memberAsked : asked ∈ table.indexes) :
    ∃ other ∈ table.indexes, other.name = asked.name ∧
      after.schema.indexes.get (table.indexName asked) =
        some (((before.schema.indexes.get (table.indexName asked)).filter fun index =>
          !(reconcile before.recorded current).any fun change => change.dooms index).getD
            ⟨table.name, other.columns⟩) := by
  have filed := program.placed table member asked memberAsked
  have ends := applied.indexes table member (table.indexName asked) filed
  obtain ⟨other, memberOther, named, same⟩ := synced_of_asked memberAsked
    ((before.tx.schema.indexes.get (table.indexName asked)).filter fun index =>
      !(reconcile before.tx.catalog current).any fun change => change.dooms index)
  exact ⟨other, memberOther, indexName_inj named, ends.trans same⟩

/-- On a table of the program no index is left that is not asked for. -/
theorem asked_of_index {before after : Disk} (placed : Placed naming before.schema)
    (applied : Applied program current before.tx after.tx) {table : TableDef}
    (member : table ∈ program.tables) {name : String} {index : IndexShape}
    (stands : after.schema.indexes.get name = some index) (on : index.table = table.name) :
    ∃ asked ∈ table.indexes, name = table.indexName asked := by
  by_contra unasked
  rw [not_exists] at unasked
  have filed : naming.owner name = table.name :=
    (applied.placed name index stands).1.symm.trans on
  have ends := applied.indexes table member name filed
  rw [synced_of_unasked fun asked memberAsked same => unasked asked ⟨memberAsked, same⟩] at ends
  have stands : after.tx.schema.indexes.get name = some index := stands
  rw [stands, eq_comm, Option.filter_eq_some_iff, Option.filter_eq_some_iff] at ends
  obtain ⟨⟨held, -⟩, spared⟩ := ends
  have own := (placed name index held).2
  rw [on] at own
  simp [on, own] at spared

/-- Where what stood under the asked names speaks for them, every asked index stands. -/
theorem index_of_trusted {before after : Disk} (faithful : Faithful naming before.tx)
    (applied : Applied program current before.tx after.tx)
    (trusted : Trusted current program.tables before) {table : TableDef}
    (member : table ∈ program.tables) {asked : IndexDef} (memberAsked : asked ∈ table.indexes) :
    after.schema.indexes.get (table.indexName asked) = some ⟨table.name, asked.columns⟩ := by
  obtain ⟨other, memberOther, named, ends⟩ := index_of_asked applied member memberAsked
  rw [ends]
  cases kept : (before.schema.indexes.get (table.indexName asked)).filter (fun index =>
      !(reconcile before.recorded current).any fun change => change.dooms index) with
  | none =>
      have same := (trusted.names table member other memberOther asked memberAsked).resolve_left
        (not_not.mpr named)
      rw [Option.getD_none, same]
  | some held =>
      obtain ⟨stood, spared⟩ := Option.filter_eq_some_iff.mp kept
      have spanned := (trusted.indexes table member asked memberAsked held stood).resolve_right
        (by simpa using spared)
      have on : held.table = table.name :=
        (faithful.indexed _ held stood).1.trans (program.placed table member asked memberAsked)
      rw [Option.getD_some, ← spanned, ← on]

/-- An apply that commits leaves what the program asks for exactly when what it
found spoke for what the program defines. -/
theorem settled_iff_trusted {before after : Disk} (faithful : Faithful naming before.tx)
    (implied : program.catalog = .ok current)
    (applied : Applied program current before.tx after.tx) :
    Settled current program.tables before after ↔ Trusted current program.tables before := by
  constructor
  · intro settled
    have column {held : TableDef × ColumnDef} (member : held ∈ columnsOf program.tables)
        {row : Recorded} (found : current.get (columnKey held) = some row) :=
      (column_settles faithful implied applied member found).mp
        ⟨settled.columns held member, by rw [settled.catalog, found]; rfl⟩
    refine ⟨?_, ?_, ?_, ?_⟩
    · intro held member row found
      exact (column member found).1
    · intro held member
      obtain ⟨row, found, -⟩ := identified implied member
      exact (column member found).2
    · intro table member asked memberAsked held stood
      rw [or_iff_not_imp_right]
      intro spared
      obtain ⟨other, -, -, ends⟩ := index_of_asked applied member memberAsked
      have kept : (before.schema.indexes.get (table.indexName asked)).filter (fun index =>
          !(reconcile before.recorded current).any fun change => change.dooms index) = some held :=
        Option.filter_eq_some_iff.mpr ⟨stood, by simpa using spared⟩
      have wanted := ((settled.indexes table member (table.indexName asked) _).mpr
        ⟨asked, memberAsked, rfl, rfl⟩).1
      rw [ends, kept, Option.getD_some] at wanted
      rw [Option.some.inj wanted]
    · intro table member asked memberAsked other memberOther
      rw [or_iff_not_imp_left, not_not]
      intro named
      have same : table.indexName asked = table.indexName other := by
        rw [TableDef.indexName, named, TableDef.indexName]
      have first := ((settled.indexes table member (table.indexName asked) _).mpr
        ⟨asked, memberAsked, rfl, rfl⟩).1
      have second := ((settled.indexes table member (table.indexName other) _).mpr
        ⟨other, memberOther, rfl, rfl⟩).1
      rw [same, second] at first
      exact (IndexShape.mk.inj (Option.some.inj first)).2.symm
  · intro trusted
    have column {held : TableDef × ColumnDef} (member : held ∈ columnsOf program.tables)
        {row : Recorded} (found : current.get (columnKey held) = some row) :=
      (column_settles faithful implied applied member found).mpr
        ⟨trusted.unmoved held member row found, trusted.unseen held member⟩
    refine ⟨?_, ?_, ?_, ?_⟩
    · intro held member
      obtain ⟨row, found, -⟩ := identified implied member
      exact (column member found).1
    · intro table member key found
      have keyed := (faithful.keyed.of_keepsKeys applied.keeps) table.name key found
      rw [← program.keyed table member] at keyed
      exact keyed
    · intro key
      cases found : current.get key with
      | none => exact applied.gone key found
      | some row =>
          obtain ⟨held, member, rfl, -⟩ := held_of_identified implied found
          exact (column member found).2
    · intro table member name index
      constructor
      · rintro ⟨stands, on⟩
        obtain ⟨asked, memberAsked, rfl⟩ := asked_of_index faithful.indexed applied member stands on
        have wanted := index_of_trusted faithful applied trusted member memberAsked
        exact ⟨asked, memberAsked, rfl, Option.some.inj (stands.symm.trans wanted)⟩
      · rintro ⟨asked, memberAsked, rfl, rfl⟩
        exact ⟨index_of_trusted faithful applied trusted member memberAsked, rfl⟩

/-- An apply that found what speaks for the program leaves a faithful store. -/
theorem Faithful.applied {before after : Disk} (faithful : Faithful naming before.tx)
    (implied : program.catalog = .ok current)
    (applied : Applied program current before.tx after.tx)
    (trusted : Trusted current program.tables before) : Faithful naming after.tx := by
  have settled := (settled_iff_trusted faithful implied applied).mpr trusted
  refine ⟨?_, faithful.keyed.of_keepsKeys applied.keeps, applied.placed⟩
  intro key row recorded
  have listed := settled.catalog key
  have recorded : after.recorded.get key = some row := recorded
  rw [recorded, eq_comm, Option.map_eq_some_iff] at listed
  obtain ⟨identity, found, rfl⟩ := listed
  obtain ⟨held, member, rfl, -⟩ := held_of_identified implied found
  obtain ⟨other, foundOther, asked⟩ := identified implied member
  cases found.symm.trans foundOther
  exact (settled.columns held member).trans (congrArg some asked.symm)

theorem apply_ok {interrupted : Bool} {disk : Disk} {changes : List Change}
    (placed : Placed naming disk.schema)
    (done : (apply program interrupted disk).1 = .ok changes) :
    interrupted = false ∧ (apply program interrupted disk).2.format = disk.format ∧
      ∃ current, program.catalog = .ok current ∧
        Applied program current disk.tx (apply program interrupted disk).2.tx := by
  unfold apply at done ⊢
  cases catalog : disk.catalog with
  | none =>
      rw [catalog] at done
      cases done
  | some recorded =>
      have here : disk.tx = ⟨disk.schema, recorded⟩ := by simp [Disk.tx, Disk.recorded, catalog]
      cases ended : applied program.digest program.tables ⟨disk.schema, recorded⟩ with
      | error error =>
          simp only [catalog, ended] at done
          cases done
      | ok result =>
          cases interrupted with
          | true =>
              simp only [catalog, ended, if_true] at done
              cases done
          | false =>
              obtain ⟨current, implied, -⟩ := bind_ok.mp ended
              simp only [ended, Bool.false_eq_true, if_false]
              refine ⟨trivial, trivial, current, implied, ?_⟩
              rw [← here] at ended
              exact applied_spec placed implied ended

/-- An apply that fails leaves the file as it was. -/
theorem apply_error {interrupted : Bool} {disk : Disk} {error : ApplyError}
    (failed : (apply program interrupted disk).1 = .error error) :
    (apply program interrupted disk).2 = disk := by
  unfold apply at failed ⊢
  split
  · rfl
  · split
    · rfl
    · split
      · rfl
      · simp_all

end Apply

/-! ## Runs -/

/-- What is true of a process and the file in every state of a run. -/
structure Session.Sound (naming : Naming) (session : Session) : Prop where
  disk : session.disk.Sound naming
  format : session.opened = true → session.disk.format = formatVersion

theorem markBuilt_faithful {naming : Naming} {disk : Disk} (key : String × String) (head : Nat)
    (faithful : Faithful naming disk.tx) : Faithful naming (markBuilt key head disk).tx := by
  refine ⟨?_, faithful.keyed, faithful.indexed⟩
  intro other row recorded
  have before (row : Recorded) (held : disk.recorded.get other = some row) :
      disk.schema.column other.1 other.2 = some (naming.spec row) := faithful.recorded other row held
  simp only [Disk.tx, Disk.recorded, markBuilt] at recorded before ⊢
  cases catalog : disk.catalog with
  | none => simp [catalog] at recorded
  | some rows =>
      simp only [catalog, Option.map_some, Option.getD_some] at recorded before
      split at recorded
      · exact before row recorded
      · next held found =>
          rw [Table.get_set] at recorded
          split at recorded
          · next here =>
              cases recorded
              exact before held (here ▸ found)
          · exact before row recorded

theorem step_sound {naming : Naming} {session next : Session} {action : Action naming}
    (sound : session.Sound naming) (trusts : Trusts session action)
    (stepped : step session action = some next) : next.Sound naming := by
  cases action with
  | «open» program interrupted =>
      cases stepped
      refine ⟨openStore_sound program interrupted sound.disk, ?_⟩
      intro opened
      apply openStore_format
      dsimp only at opened
      split at opened
      · next done => exact done
      · cases opened
  | apply program interrupted =>
      simp only [step] at stepped
      split at stepped
      · next opened =>
          cases stepped
          have faithful := sound.disk (sound.format opened)
          cases ended : (apply program interrupted session.disk).1 with
          | error error =>
              rw [apply_error ended]
              exact sound
          | ok changes =>
              obtain ⟨rfl, format, current, implied, applied⟩ := apply_ok faithful.indexed ended
              have trusted : Trusted current program.tables session.disk :=
                trusts current (by rw [implied]; rfl)
              exact ⟨fun _ => faithful.applied implied applied trusted,
                fun _ => format.trans (sound.format opened)⟩
      · cases stepped
  | markBuilt table column head =>
      simp only [step] at stepped
      split at stepped
      · next opened =>
          cases stepped
          exact ⟨fun current => markBuilt_faithful _ _ (sound.disk current), sound.format⟩
      · cases stepped
  | crash =>
      cases stepped
      exact ⟨sound.disk, nofun⟩

/-- Over any deploys from a file of no or another format, whose applies all
commit on what speaks for their programs: an apply that fails leaves the file as
it was, and one that commits leaves exactly what the program asks for when and
only when what it found spoke for it. -/
theorem apply_settles {naming : Naming} {first session : Session}
    {actions : List (Action naming)} (foreign : first.disk.format ≠ formatVersion)
    (closed : first.opened = false) (trusts : Guarded step Trusts first actions)
    (ran : run step first actions = some session) (opened : session.opened = true)
    (program : Deployable naming) (interrupted : Bool) :
    (∀ error, (apply program interrupted session.disk).1 = .error error →
      (apply program interrupted session.disk).2 = session.disk) ∧
    ∀ changes, (apply program interrupted session.disk).1 = .ok changes →
      ∀ current, program.catalog = .ok current →
        (Settled current program.tables session.disk (apply program interrupted session.disk).2 ↔
          Trusted current program.tables session.disk) := by
  have sound : session.Sound naming := by
    refine run_invariant_of_guarded (Session.Sound naming) ?_ ?_ trusts ran
    · exact fun _ _ _ sound trusts stepped => step_sound sound trusts stepped
    · exact ⟨fun current => absurd current foreign, fun opened => by simp [closed] at opened⟩
  refine ⟨fun _ failed => apply_error failed, ?_⟩
  intro changes done current implied
  have faithful := sound.disk (sound.format opened)
  obtain ⟨-, -, other, impliedOther, applied⟩ := apply_ok faithful.indexed done
  cases implied.symm.trans impliedOther
  exact settled_iff_trusted faithful implied applied

/-! ## A seed that moves between an open and its apply -/

namespace Cancelled

def naming : Naming where
  key := fun _ => [("customer", { kind := .i64 })]
  type := fun _ => ("INTEGER", false)
  owner := fun _ => "t1"

/-- The column of a fold that says whether a customer has cancelled. -/
def column (seed : String) : ColumnDef where
  name := "cancelled"
  fold := "Cancelled"
  default := some seed
  field := { kind := .bool }

def table (seed : String) : TableDef where
  name := "t1"
  key := [("customer", { kind := .i64 })]
  columns := [column seed]
  indexes := []
  distinct := List.nodup_singleton _
  derived := nofun

/-- The program with a seed; the hash of the fold covers it. -/
def program (seed : String) : Deployable naming where
  digest := Table.ofList [("Cancelled", { hash := seed, signatureHash := some "Bool" })]
  tables := [table seed]
  distinct := List.nodup_singleton _
  keyed := by
    intro table member
    rw [List.mem_singleton.mp member]
    rfl
  placed := by
    intro table member index asked
    rw [List.mem_singleton.mp member] at asked
    cases asked
  typed := by
    intro held member entry _
    rw [columnsOf, List.flatMap_singleton] at member
    rw [List.mem_singleton.mp member]
    rfl

/-- No file yet. -/
def blank : Session := ⟨⟨0, .empty, none, none⟩, false⟩

end Cancelled

open Cancelled in
/-- The first deploy stops after its open; the next brings another seed, and the
column keeps the old one. -/
theorem apply_keeps_stale_default :
    ∃ session, run step blank [.open (program "0") none, .crash, .open (program "1") none] =
        some session ∧
      ∃ changes, (apply (program "1") false session.disk).1 = .ok changes ∧
        ∀ current, (program "1").catalog = .ok current →
          ¬ Settled current (program "1").tables session.disk
            (apply (program "1") false session.disk).2 := by
  have ended : (run step blank
      [.open (program "0") none, .crash, .open (program "1") none]).any (fun session =>
        (apply (program "1") false session.disk).1.isOk &&
          decide ((apply (program "1") false session.disk).2.schema.column "t1" "cancelled" =
            some (column "0").spec)) = true := by decide
  obtain ⟨session, ran, ended⟩ := (Option.any_eq_true _ _).mp ended
  rw [Bool.and_eq_true, decide_eq_true_eq] at ended
  refine ⟨session, ran, ?_⟩
  cases done : (apply (program "1") false session.disk).1 with
  | error error =>
      rw [done] at ended
      cases ended.1
  | ok changes =>
      refine ⟨changes, rfl, ?_⟩
      intro current _ settled
      have member : (table "1", column "1") ∈ columnsOf (program "1").tables := by
        simp [columnsOf, program, table]
      have asked := settled.columns _ member
      have stale : some (column "0").spec = some (column "1").spec := ended.2.symm.trans asked
      revert stale
      decide

open Cancelled in
theorem apply_settles_of_moved_seed :
    ∃ session, run step blank
        [.open (program "0") none, .apply (program "0") false, .open (program "1") none] =
        some session ∧
      ((∀ error, (apply (program "1") false session.disk).1 = .error error →
          (apply (program "1") false session.disk).2 = session.disk) ∧
        ∀ changes, (apply (program "1") false session.disk).1 = .ok changes →
          ∀ current, (program "1").catalog = .ok current →
            (Settled current (program "1").tables session.disk
                (apply (program "1") false session.disk).2 ↔
              Trusted current (program "1").tables session.disk)) := by
  have ended : (run step blank
      [.open (program "0") none, .apply (program "0") false, .open (program "1") none]).any
        Session.opened = true := by decide
  obtain ⟨session, ran, opened⟩ := (Option.any_eq_true _ _).mp ended
  exact ⟨session, ran,
    apply_settles (by decide) rfl (by decide) ran opened (program "1") false⟩

/-- Two sets of pinned parts may share the name of their index. -/
example : (rangedIndex ["shop_id"]).name = (rangedIndex ["shop", "id"]).name := by decide

end Hekla.Derived
