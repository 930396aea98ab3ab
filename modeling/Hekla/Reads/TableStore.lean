import Hekla.Reads.Tables

/-!
# The rows of the derived tables

Every key part and every cell is written through the text that its type is read
from, so what a column holds is what some text of its kind names.  A row that is
new holds the seed of each column it was not given.
-/

namespace Hekla.Reads

open Hekla.Library Hekla.Host
open Hekla.Derived (FieldKind oneRow)

/-- A cell as the text a cursor carries. -/
def keyText : Cell → String
  | .integer number => toString number.toInt
  | .text text => text
  -- No table has a column of blobs.
  | .blob _ | .null => ""

variable {spelling : Spelling}

/-- What a column holds is named by its own text. -/
theorem Held.keyText (lawful : spelling.Lawful) {kind : FieldKind} {cell : Cell}
    (held : Held spelling kind cell) : coerceValue spelling kind (keyText cell) = .ok cell := by
  obtain ⟨text, named⟩ := held
  unfold coerceValue at named ⊢
  split at named
  · split at named
    · cases named
      rfl
    · split at named
      · cases named
        rfl
      · cases named
  · cases read : parseI64 text with
    | none =>
        rw [read] at named
        cases named
    | some number =>
        rw [read] at named
        cases named
        exact congrArg (fun back => Option.elim back _ _) (parseI64_toString number)
  · cases read : (spelling.timestamp text).bind spelling.storedTimestamp with
    | none =>
        rw [read] at named
        cases named
    | some stored =>
        rw [read] at named
        cases named
        obtain ⟨micros, _, spelt⟩ := Option.bind_eq_some_iff.mp read
        have again : (spelling.timestamp stored).bind spelling.storedTimestamp = some stored := by
          rw [lawful.stored_reads spelt, Option.bind_some, spelt]
        exact congrArg (fun back => Option.elim back _ _) again
  · cases named
    rfl

theorem Held.ne_null {kind : FieldKind} {cell : Cell} (held : Held spelling kind cell) :
    cell ≠ .null := by
  rintro rfl
  obtain ⟨text, named⟩ := held
  unfold coerceValue at named
  split at named
  · split at named
    · cases named
    · split at named <;> cases named
  · cases read : parseI64 text <;> rw [read] at named <;> cases named
  · cases read : (spelling.timestamp text).bind spelling.storedTimestamp <;>
      rw [read] at named <;> cases named
  · cases named

variable (spelling)

/-! ## Rows -/

/-- What a row of a table holds in its columns. -/
structure TableDef.Holds (table : TableDef) (row : Row) : Prop where
  keyed : ∀ part ∈ table.key, Held spelling part.2.kind (row part.1)
  guarded : table.key = [] → row oneRow = .integer 0
  celled : ∀ column ∈ table.columns, column.field.sealedUnder = none →
    row column.name = .null ∨ Held spelling column.field.kind (row column.name)

/-- The rows of every table, and how long the log was when they were folded. -/
structure Store (tables : List TableDef) where
  rows : String → List Row
  position : Nat
  distinct : ∀ table ∈ tables,
    ((rows table.name).map fun row => table.keyColumns.map row).Nodup
  holds : ∀ table ∈ tables, ∀ row ∈ rows table.name, table.Holds spelling row

/-- A key's values as they are bound, or the guard of the one row. -/
def keyBinds (table : TableDef) (key : List String) : Except String (List Cell) :=
  if table.key.isEmpty then .ok [.integer 0]
  else if key.length = table.key.length then
    (table.key.zip key).mapM fun part => coerceValue spelling part.1.2.kind part.2
  else .error "NOT NULL constraint failed"

/-- One cell as it is written: a text of its kind, or ciphertext, or null. -/
def cellBind (column : ColumnDef) : Option String → Except String Cell
  | none => .ok .null
  | some text =>
      if column.field.sealedUnder.isSome then .ok (.text text)
      else coerceValue spelling column.field.kind text

def cellBinds (table : TableDef) (cells : List (String × Option String)) :
    Except String (List (String × Cell)) :=
  cells.mapM fun cell =>
    match table.column cell.1 with
    | none => .error s!"no such column"
    | some column => (cellBind spelling column cell.2).map fun bound => (cell.1, bound)

variable {spelling}

/-- A row with some of its cells set. -/
def setCells (cells : List (String × Cell)) (row : Row) : Row :=
  fun name => (cells.lookup name).getD (row name)

/-- A row of a key, which holds the seed of every column. -/
def seededRow (table : TableDef) (key : List Cell) : Row := fun name =>
  ((table.keyColumns.zip key).lookup name).getD ((table.column name).elim .null ColumnDef.seed)

/-- Write some cells of the row of a key, which is made if there is none. -/
def upsert (table : TableDef) (key : List Cell) (cells : List (String × Cell)) (rows : List Row) :
    List Row :=
  if rows.any fun row => table.keyColumns.map row == key then
    rows.map fun row => if table.keyColumns.map row = key then setCells cells row else row
  else rows ++ [setCells cells (seededRow table key)]

/-- Cells that are written through their columns. -/
def Fits (spelling : Spelling) (table : TableDef) (cells : List (String × Cell)) : Prop :=
  ∀ cell ∈ cells, ∃ column ∈ table.columns, column.name = cell.1 ∧
    (column.field.sealedUnder = none → cell.2 = .null ∨ Held spelling column.field.kind cell.2)

namespace TableDef

variable {table : TableDef}

theorem column_mem {name : String} {column : ColumnDef} (named : table.column name = some column) :
    column ∈ table.columns ∧ column.name = name :=
  ⟨List.mem_of_find?_eq_some named, by simpa using List.find?_some named⟩

theorem part_mem {name : String} {field : FieldMeta} (named : table.part name = some field) :
    (name, field) ∈ table.key := by
  obtain ⟨⟨known, meta_⟩, found, rfl⟩ := Option.map_eq_some_iff.mp named
  have same : known = name := by simpa using List.find?_some found
  exact same ▸ List.mem_of_find?_eq_some found

theorem mem_keyColumns {part : String × FieldMeta} (member : part ∈ table.key) :
    part.1 ∈ table.keyColumns := by
  have some_ : table.key.isEmpty = false := by
    rw [List.isEmpty_eq_false_iff]
    exact List.ne_nil_of_mem member
  unfold keyColumns
  rw [some_, if_neg Bool.false_ne_true]
  exact List.mem_map_of_mem member

theorem Formed.column_eq (formed : table.Formed spelling) {one other : ColumnDef}
    (first : one ∈ table.columns) (second : other ∈ table.columns) (same : one.name = other.name) :
    one = other :=
  List.inj_on_of_nodup_map (List.nodup_append.mp formed.distinct).2.1 first second same

theorem Formed.column_of_mem (formed : table.Formed spelling) {column : ColumnDef}
    (member : column ∈ table.columns) : table.column column.name = some column := by
  cases found : table.column column.name with
  | none =>
      have absent := List.find?_eq_none.mp found column member
      simp at absent
  | some other =>
      obtain ⟨known, same⟩ := column_mem found
      rw [formed.column_eq known member same]

theorem Formed.apart (formed : table.Formed spelling) {name : String} {column : ColumnDef}
    (keyed : name ∈ table.keyColumns) (member : column ∈ table.columns) : column.name ≠ name :=
  fun same => (List.nodup_append.mp formed.distinct).2.2 name keyed column.name
    (List.mem_map_of_mem member) same.symm

end TableDef

variable {table : TableDef}

theorem fits_of_cellBinds {cells : List (String × Option String)} {bound : List (String × Cell)}
    (binds : cellBinds spelling table cells = .ok bound) : Fits spelling table bound := by
  intro cell member
  obtain ⟨given, _, written⟩ := (mem_of_mapM_ok binds cell).mp member
  cases named : table.column given.1 with
  | none =>
      rw [named] at written
      cases written
  | some column =>
      rw [named] at written
      dsimp only at written
      obtain ⟨known, same⟩ := TableDef.column_mem named
      cases held : cellBind spelling column given.2 with
      | error why =>
          rw [held] at written
          cases written
      | ok value =>
          rw [held] at written
          cases written
          refine ⟨column, known, same, ?_⟩
          intro unsealed
          unfold cellBind at held
          split at held
          · cases held
            exact .inl rfl
          · rw [unsealed] at held
            exact .inr ⟨_, held⟩

theorem setCells_key (formed : table.Formed spelling) {cells : List (String × Cell)}
    (fits : Fits spelling table cells) (row : Row) {name : String}
    (keyed : name ∈ table.keyColumns) : setCells cells row name = row name := by
  unfold setCells
  cases found : cells.lookup name with
  | none => rfl
  | some cell =>
      obtain ⟨before, after, split, _⟩ := List.lookup_eq_some_iff.mp found
      obtain ⟨column, member, same, _⟩ := fits (name, cell) (by simp [split])
      exact absurd same (formed.apart keyed member)

/-- Setting cells keeps what a row holds. -/
theorem TableDef.Holds.setCells (formed : table.Formed spelling) {cells : List (String × Cell)}
    (fits : Fits spelling table cells) {row : Row} (holds : table.Holds spelling row) :
    table.Holds spelling (setCells cells row) := by
  constructor
  · intro part member
    rw [setCells_key formed fits row (mem_keyColumns member)]
    exact holds.keyed part member
  · intro keyless
    have guard : oneRow ∈ table.keyColumns := by simp [keyColumns, keyless]
    rw [setCells_key formed fits row guard]
    exact holds.guarded keyless
  · intro column member unsealed
    unfold Reads.setCells
    cases found : cells.lookup column.name with
    | none => exact holds.celled column member unsealed
    | some cell =>
        obtain ⟨before, after, split, _⟩ := List.lookup_eq_some_iff.mp found
        obtain ⟨other, known, same, held⟩ := fits (column.name, cell) (by simp [split])
        obtain rfl := formed.column_eq known member same
        exact held unsealed

theorem lookup_zip {names : List String} (distinct : names.Nodup) {cells : List Cell}
    (width : names.length = cells.length) (default : String → Cell) :
    names.map (fun name => ((names.zip cells).lookup name).getD (default name)) = cells := by
  induction names generalizing cells with
  | nil => exact (List.length_eq_zero_iff.mp width.symm).symm
  | cons name rest ih =>
      cases cells with
      | nil => cases width
      | cons cell others =>
          rw [List.nodup_cons] at distinct
          rw [List.zip_cons_cons, List.map_cons, List.lookup_cons_self, Option.getD_some]
          congr 1
          refine (List.map_congr_left ?_).trans (ih distinct.2 (Nat.succ.inj width))
          intro other member
          have apart : other ≠ name := fun same => distinct.1 (same ▸ member)
          rw [List.lookup_cons, beq_eq_false_iff_ne.mpr apart]

theorem seededRow_key (formed : table.Formed spelling) {key : List Cell}
    (width : table.keyColumns.length = key.length) :
    table.keyColumns.map (seededRow table key) = key :=
  lookup_zip (List.nodup_append.mp formed.distinct).1 width _

/-- The values of a key, each named by its text. -/
structure Keyed (spelling : Spelling) (table : TableDef) (key : List Cell) : Prop where
  width : table.keyColumns.length = key.length
  held : table.key ≠ [] → List.Forall₂ (fun part cell => Held spelling part.2.kind cell) table.key key
  guard : table.key = [] → key = [.integer 0]

theorem keyed_of_keyBinds {texts : List String} {key : List Cell}
    (binds : keyBinds spelling table texts = .ok key) : Keyed spelling table key := by
  unfold keyBinds at binds
  split at binds
  · next empty =>
      cases binds
      have keyless := List.isEmpty_iff.mp empty
      exact ⟨by simp [TableDef.keyColumns, keyless], fun some_ => absurd keyless some_, fun _ => rfl⟩
  · next some_ =>
      split at binds
      · next same =>
          have each := forall₂_of_mapM_ok binds
          have held : List.Forall₂ (fun part cell => Held spelling part.2.kind cell) table.key key := by
            rw [← List.map_fst_zip (Nat.le_of_eq same.symm), List.forall₂_map_left_iff]
            exact each.imp fun part cell coerced => ⟨part.2, coerced⟩
          have width : table.keyColumns.length = key.length := by
            unfold TableDef.keyColumns
            rw [if_neg some_, List.length_map, held.length_eq]
          exact ⟨width, fun _ => held, fun keyless => absurd (List.isEmpty_iff.mpr keyless) some_⟩
      · cases binds

/-- A new row holds its key, and the seed of every column. -/
theorem seededRow_holds (formed : table.Formed spelling) {key : List Cell}
    (keyed : Keyed spelling table key) : table.Holds spelling (seededRow table key) := by
  have own := seededRow_key formed keyed.width
  constructor
  · intro part member
    have some_ := List.ne_nil_of_mem member
    have listed : table.keyColumns = table.key.map Prod.fst := by
      unfold TableDef.keyColumns
      rw [if_neg (fun empty => some_ (List.isEmpty_iff.mp empty))]
    rw [listed, List.map_map] at own
    have held := keyed.held some_
    rw [← own, List.forall₂_map_right_iff, List.forall₂_same] at held
    exact held part member
  · intro keyless
    have alone := keyed.guard keyless
    rw [alone] at own ⊢
    simpa [TableDef.keyColumns, keyless] using own
  · intro column member unsealed
    have named := formed.column_of_mem member
    have unkeyed : (table.keyColumns.zip key).lookup column.name = none := by
      rw [List.lookup_eq_none_iff]
      rintro ⟨name, cell⟩ zipped
      exact bne_iff_ne.mpr (formed.apart (List.of_mem_zip zipped).1 member)
    unfold seededRow
    rw [unkeyed, named]
    exact formed.seeds column member unsealed

/-- A write leaves one row of each key. -/
theorem upsert_distinct (formed : table.Formed spelling) {key : List Cell}
    {cells : List (String × Cell)} (keyed : Keyed spelling table key)
    (fits : Fits spelling table cells) {rows : List Row}
    (distinct : (rows.map fun row => table.keyColumns.map row).Nodup) :
    ((upsert table key cells rows).map fun row => table.keyColumns.map row).Nodup := by
  have kept (row : Row) : table.keyColumns.map (setCells cells row) = table.keyColumns.map row :=
    List.map_congr_left fun name member => setCells_key formed fits row member
  unfold upsert
  split
  · rw [List.map_map]
    have same : (fun row => table.keyColumns.map row) ∘
        (fun row => if table.keyColumns.map row = key then setCells cells row else row) =
        fun row => table.keyColumns.map row := by
      funext row
      rw [Function.comp_apply]
      split
      · exact kept row
      · rfl
    rw [same]
    exact distinct
  · next absent =>
      rw [List.map_append, List.nodup_append]
      refine ⟨distinct, List.nodup_singleton _, ?_⟩
      intro place present other added equal
      obtain ⟨row, member, rfl⟩ := List.mem_map.mp present
      obtain rfl := List.mem_singleton.mp added
      dsimp only at equal
      rw [kept, seededRow_key formed keyed.width] at equal
      exact absent (List.any_eq_true.mpr ⟨row, member, beq_iff_eq.mpr equal⟩)

theorem upsert_holds (formed : table.Formed spelling) {key : List Cell}
    {cells : List (String × Cell)} (keyed : Keyed spelling table key)
    (fits : Fits spelling table cells) {rows : List Row}
    (holds : ∀ row ∈ rows, table.Holds spelling row) :
    ∀ row ∈ upsert table key cells rows, table.Holds spelling row := by
  intro row member
  unfold upsert at member
  split at member
  · obtain ⟨before, known, rfl⟩ := List.mem_map.mp member
    split
    · exact (holds before known).setCells formed fits
    · exact holds before known
  · rcases List.mem_append.mp member with known | added
    · exact holds row known
    · rw [List.mem_singleton.mp added]
      exact (seededRow_holds formed keyed).setCells formed fits

namespace Store

variable {tables : List TableDef}

/-- Write some cells of the row of a key in a table. -/
def writeRow (laid : Laid spelling tables) (store : Store spelling tables) (table : TableDef)
    (known : table ∈ tables) (key : List String) (cells : List (String × Option String)) :
    Except String (Store spelling tables) :=
  match named : keyBinds spelling table key, bound : cellBinds spelling table cells with
  | .ok key, .ok cells =>
      .ok { store with
        rows := fun name =>
          if name = table.name then upsert table key cells (store.rows name) else store.rows name
        distinct := by
          intro other member
          by_cases same : other.name = table.name
          · obtain rfl := List.inj_on_of_nodup_map laid.names member known same
            rw [if_pos rfl]
            exact upsert_distinct (laid.formed other known) (keyed_of_keyBinds named)
              (fits_of_cellBinds bound) (store.distinct other known)
          · rw [if_neg same]
            exact store.distinct other member
        holds := by
          intro other member
          by_cases same : other.name = table.name
          · obtain rfl := List.inj_on_of_nodup_map laid.names member known same
            rw [if_pos rfl]
            exact upsert_holds (laid.formed other known) (keyed_of_keyBinds named)
              (fits_of_cellBinds bound) (store.holds other known)
          · rw [if_neg same]
            exact store.holds other member }
  | .error why, _ => .error why
  | _, .error why => .error why

end Store

end Hekla.Reads
