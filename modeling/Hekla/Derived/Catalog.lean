import Hekla.Derived.Tables
import Hekla.Library.Passes
import Mathlib.Data.List.Sort

/-!
# The column catalog

The store records, for every column, what its fold does, what of it is visible
from outside, and its seed.  Reconciling the recorded catalog with the one a
program implies gives one change for each column either of them names.
-/

namespace Hekla.Derived

open Library

/-- One column, as the store records it under its table and name. -/
structure Recorded where
  fold : String
  foldHash : String
  signatureHash : String
  seed : Option String
  /-- The log position the column has been folded to. -/
  builtTo : Nat
  deriving DecidableEq

abbrev Catalog := Table (String × String) Recorded

/-- The digest entry of a fold: what it does, and what of it is visible outside. -/
structure Entry where
  hash : String
  signatureHash : Option String
  deriving DecidableEq

/-- The fold entries of a digest, by name. -/
abbrev Digest := Table String Entry

inductive ApplyError where
  | noIdentity (fold table column : String)
  | noDerivedTable (table : String)
  | noColumn (column : String)
  | noCatalog
  | ddl (error : DdlError)
  | interrupted
  deriving DecidableEq

/-- Every column of the tables. -/
def columnsOf (tables : List TableDef) : List (TableDef × ColumnDef) :=
  tables.flatMap fun table => table.columns.map fun column => (table, column)

/-- Where a column is recorded. -/
def columnKey (held : TableDef × ColumnDef) : String × String := (held.1.name, held.2.name)

/-- What the program says of a column: it holds nothing but its seed yet. -/
def Recorded.of (entry : Entry) (column : ColumnDef) : Recorded where
  fold := column.fold
  foldHash := entry.hash
  signatureHash := entry.signatureHash.getD ""
  seed := column.default
  builtTo := 0

/-- The identity of one column, which a fold without a digest entry does not have. -/
def identity (digest : Digest) (held : TableDef × ColumnDef) :
    Except ApplyError ((String × String) × Recorded) :=
  match digest.get held.2.fold with
  | none => .error (.noIdentity held.2.fold held.1.name held.2.name)
  | some entry => .ok (columnKey held, .of entry held.2)

/-- Every column the program implies. -/
def catalog (digest : Digest) (tables : List TableDef) : Except ApplyError Catalog :=
  ((columnsOf tables).mapM (identity digest)).map Table.ofList

/-- What a deploy would do to one column. -/
inductive Verdict where
  | upToDate
  | add
  | refold
  | reshape
  | drop
  deriving DecidableEq

/-- One column and what the deploy would do to it. -/
structure Change where
  table : String
  column : String
  fold : String
  verdict : Verdict
  deriving DecidableEq

def Change.key (change : Change) : String × String := (change.table, change.column)

/-- The verdict on a column of the program. -/
def verdict (was : Option Recorded) (row : Recorded) : Verdict :=
  match was with
  | none => .add
  | some before =>
      if before.foldHash = row.foldHash then .upToDate
      -- a default cannot be altered
      else if before.seed ≠ row.seed then .reshape
      else if before.signatureHash = row.signatureHash then .refold
      else .reshape

/-- By table, then by column. -/
def Change.before (one two : Change) : Bool :=
  decide (one.table < two.table ∨ one.table = two.table ∧ one.column ≤ two.column)

/-- What a deploy would change, column by column. -/
def reconcile (recorded current : Catalog) : List Change :=
  let kept := current.entries.map fun entry =>
    ({ table := entry.1.1, column := entry.1.2, fold := entry.2.fold,
       verdict := verdict (recorded.get entry.1) entry.2 } : Change)
  let gone := (recorded.entries.filter fun entry => (current.get entry.1).isNone).map fun entry =>
    ({ table := entry.1.1, column := entry.1.2, fold := entry.2.fold, verdict := .drop } : Change)
  (kept ++ gone).insertionSort fun one two => one.before two

theorem nodup_columnKeys {tables : List TableDef} (distinct : (tables.map TableDef.name).Nodup) :
    ((columnsOf tables).map columnKey).Nodup := by
  have keys (table : TableDef) : (table.columns.map fun column => (table, column)).map columnKey =
      (table.columns.map ColumnDef.name).map fun name => (table.name, name) := by
    rw [List.map_map, List.map_map]
    rfl
  rw [columnsOf, List.map_flatMap]
  refine List.nodup_flatMap.mpr ⟨?_, (List.pairwise_map.mp distinct).imp ?_⟩
  · intro table _
    rw [keys]
    exact table.distinct.map (Prod.mk_right_injective table.name)
  · intro table other differ key here there
    simp only [keys] at here there
    obtain ⟨_, _, rfl⟩ := List.mem_map.mp here
    obtain ⟨_, _, same⟩ := List.mem_map.mp there
    exact differ (Prod.mk.inj same).1.symm

/-- The catalog of a program holds exactly the identities of its columns. -/
theorem get_catalog {digest : Digest} {tables : List TableDef} {current : Catalog}
    (distinct : (tables.map TableDef.name).Nodup) (implied : catalog digest tables = .ok current)
    (key : String × String) (row : Recorded) :
    current.get key = some row ↔
      ∃ held ∈ columnsOf tables, identity digest held = .ok (key, row) := by
  unfold catalog at implied
  cases mapped : (columnsOf tables).mapM (identity digest) with
  | error error => simp [mapped, Except.map] at implied
  | ok entries =>
      simp only [mapped, Except.map, Except.ok.injEq] at implied
      subst implied
      have keys : entries.map Prod.fst = (columnsOf tables).map columnKey := by
        refine map_of_mapM_ok mapped ?_
        intro held result found
        unfold identity at found
        split at found
        · cases found
        · cases found
          rfl
      rw [Table.get_ofList (keys ▸ nodup_columnKeys distinct), mem_of_mapM_ok mapped]

theorem mem_columnsOf {tables : List TableDef} {table : TableDef} {column : ColumnDef} :
    (table, column) ∈ columnsOf tables ↔ table ∈ tables ∧ column ∈ table.columns := by
  simp [columnsOf]

section Reconcile

variable (recorded current : Catalog)

/-- The changes name the columns of the program, each with its verdict, and the
recorded columns the program no longer has. -/
theorem mem_reconcile (change : Change) :
    change ∈ reconcile recorded current ↔
      (∃ row, current.get change.key = some row ∧ change.fold = row.fold ∧
        change.verdict = verdict (recorded.get change.key) row) ∨
      (current.get change.key = none ∧ ∃ row, recorded.get change.key = some row ∧
        change.fold = row.fold ∧ change.verdict = .drop) := by
  rw [reconcile, (List.perm_insertionSort _ _).mem_iff, List.mem_append]
  apply or_congr
  · simp only [List.mem_map, Table.get_eq_some_iff]
    constructor
    · rintro ⟨⟨key, row⟩, member, rfl⟩
      exact ⟨row, member, rfl, rfl⟩
    · rintro ⟨row, member, fold, judged⟩
      refine ⟨⟨change.key, row⟩, member, ?_⟩
      cases change
      simp_all [Change.key]
  · simp only [List.mem_map, List.mem_filter, Table.get_eq_some_iff]
    constructor
    · rintro ⟨⟨key, row⟩, ⟨member, gone⟩, rfl⟩
      exact ⟨by simpa [Change.key] using gone, row, member, rfl, rfl⟩
    · rintro ⟨gone, row, member, fold, judged⟩
      refine ⟨⟨change.key, row⟩, ⟨member, by simpa using gone⟩, ?_⟩
      cases change
      simp_all [Change.key]

/-- No column is named twice. -/
theorem nodup_reconcile : ((reconcile recorded current).map Change.key).Nodup := by
  rw [reconcile, ((List.perm_insertionSort _ _).map Change.key).nodup_iff, List.map_append,
    List.map_map, List.map_map, List.nodup_append']
  refine ⟨?_, ?_, ?_⟩
  · exact current.nodupKeys
  · exact recorded.nodupKeys.sublist List.filter_sublist
  · intro key here there
    obtain ⟨entry, member, rfl⟩ := List.mem_map.mp here
    obtain ⟨other, memberOther, same⟩ := List.mem_map.mp there
    have gone := (List.mem_filter.mp memberOther).2
    have held := (Table.get_eq_some_iff current entry.1 entry.2).mpr member
    have same : other.1 = entry.1 := same
    rw [same, held] at gone
    cases gone

end Reconcile

end Hekla.Derived
