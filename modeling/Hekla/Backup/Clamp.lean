import Hekla.Backup.OpSchema
import Mathlib.Data.List.Forall2

/-!
# Cutting the copied state at the log's head

A restored log continues above its head, so a row that records a later position
is a claim about an event that does not exist.  The clamp deletes such rows and
lowers such marks, in one transaction, over whatever tables the copy's schema
version has.  Everything is said of one rewrite of the database, `clampRow`,
which a run either performs whole or does not perform.
-/

namespace Hekla.Backup

open Hekla.Library

/-- Positions are stored signed, so a head above the greatest one saturates. -/
def clampI64 (value : UInt64) : Int64 :=
  if value.toNat ≤ Int64.maxValue.toInt.toNat then Int64.ofNat value.toNat else Int64.maxValue

/-- Whether a cell holds a position above a head. -/
def Above (cell : Cell) (head : UInt64) : Prop :=
  match cell with
  | .null => False
  | .integer value => (head.toNat : Int) < value.toInt
  | .text _ | .blob _ => True

/-- The saturated bound cuts at the head itself. -/
theorem exceeds_clampI64 (cell : Cell) (head : UInt64) :
    cell.exceeds (clampI64 head) = true ↔ Above cell head := by
  cases cell with
  | null => simp [Cell.exceeds, Above]
  | text value => simp [Cell.exceeds, Above]
  | blob bytes => simp [Cell.exceeds, Above]
  | integer value =>
      have most : value.toInt ≤ Int64.maxValue.toInt := Int64.toInt_le value
      have greatest : Int64.maxValue.toInt = 2 ^ 63 - 1 := by decide
      simp only [Cell.exceeds, Above, decide_eq_true_eq, Int64.lt_iff_toInt_lt, clampI64]
      split
      · next fits =>
          rw [Int64.toInt_ofNat_of_lt (by omega)]
      · next large =>
          constructor
          · intro above
            omega
          · intro above
            omega

instance (cell : Cell) (head : UInt64) : Decidable (Above cell head) :=
  decidable_of_iff _ (exceeds_clampI64 cell head)

/-! ## The run -/

/-- What [`clampToLog`] took out of the copy. -/
structure Discarded where
  invocations : Nat := 0
  journalRows : Nat := 0
  laneRows : Nat := 0
  quarantines : Nat := 0
  cursorsLowered : Nat := 0
  boundariesLowered : Nat := 0
  otherRows : Nat := 0
  deriving DecidableEq

namespace Discarded

def deleted (discarded : Discarded) (table : String) (rows : Nat) : Discarded :=
  match table with
  | "effect_journal" => { discarded with journalRows := rows }
  | "effect_invocation" => { discarded with invocations := rows }
  | "effect_lane" => { discarded with laneRows := rows }
  | "effect_quarantine" => { discarded with quarantines := rows }
  | _ => { discarded with otherRows := discarded.otherRows + rows }

def lowered (discarded : Discarded) (column : String) (rows : Nat) : Discarded :=
  match column with
  | "watermark" => { discarded with cursorsLowered := rows }
  | "live_boundary" => { discarded with boundariesLowered := rows }
  | _ => { discarded with otherRows := discarded.otherRows + rows }

end Discarded

/-- Where a run can fail for a reason of the disk or of another connection. -/
inductive Stage where
  | opening
  | foreignKeys
  | beginning
  | probe (table : String)
  | statement (table : String)
  | commit
  deriving DecidableEq

/-- An error, with what was being done. -/
structure Failure where
  context : String
  cause : SqlError
  deriving DecidableEq

section Run

variable (faults : Stage → Option String)

def attempt (stage : Stage) (context : String) : Except Failure Unit :=
  match faults stage with
  | none => .ok ()
  | some message => .error ⟨context, .failed message⟩

def hasTable (tx : Database) (table : String) : Except Failure Bool := do
  attempt faults (.probe table) ("looking for the `" ++ table ++ "` table")
  return (tx.get table).isSome

def deleteAbove (tx : Database) (table : String) (head : UInt64) :
    Except Failure (Nat × Database) := do
  if ← hasTable faults tx table then
    let context := "discarding `" ++ table ++ "` rows above the head"
    attempt faults (.statement table) context
    (tx.deleteWhere table "position" (fun cell => cell.exceeds (clampI64 head))).mapError
      (Failure.mk context)
  else
    return (0, tx)

def lower (tx : Database) (table column : String) (head : UInt64) :
    Except Failure (Nat × Database) := do
  if ← hasTable faults tx table then
    let context := "lowering `" ++ table ++ "." ++ column ++ "` to the head"
    attempt faults (.statement table) context
    (tx.updateWhere table column (.integer (clampI64 head))
      (fun cell => cell.exceeds (clampI64 head))).mapError (Failure.mk context)
  else
    return (0, tx)

def deleteEach (head : UInt64) (tables : List String) (state : Discarded × Database) :
    Except Failure (Discarded × Database) :=
  tables.foldlM (fun state table => do
    let (rows, tx) ← deleteAbove faults state.2 table head
    return (state.1.deleted table rows, tx)) state

def lowerEach (head : UInt64) (columns : List (String × String)) (state : Discarded × Database) :
    Except Failure (Discarded × Database) :=
  columns.foldlM (fun state column => do
    let (rows, tx) ← lower faults state.2 column.1 column.2 head
    return (state.1.lowered column.2 rows, tx)) state

/-- The statements of one clamp, against the copy its transaction sees. -/
def clampStatements (path : String) (head : UInt64) (tx : Database) :
    Except Failure (Discarded × Database) := do
  attempt faults .opening ("opening " ++ path)
  attempt faults .foreignKeys "enabling foreign keys"
  attempt faults .beginning "beginning a clamp"
  let deleted ← deleteEach faults head POSITIONED_TABLES ({}, tx)
  let lowered ← lowerEach faults head WATERMARK_COLUMNS deleted
  attempt faults .commit "committing a clamp"
  return lowered

/-- Lower every position the database records to the head. -/
def clampToLog (path : String) (db : Database) (head : UInt64) :
    Except Failure Discarded × Database :=
  db.transact (clampStatements faults path head)

end Run

/-! ## What a run does to each row -/

/-- The rows of the named tables that are above the head are dropped. -/
def cut (head : UInt64) (tables : List String) (name : String) (row : Row) : Option Row :=
  if name ∈ tables ∧ (row "position").exceeds (clampI64 head) = true then none else some row

/-- A mark above the head becomes the head. -/
def lowerAt (head : UInt64) (name : String) (row : Row) (column : String × String) : Row :=
  if name = column.1 ∧ (row column.2).exceeds (clampI64 head) = true then
    Function.update row column.2 (.integer (clampI64 head))
  else row

/-- What a whole run does to a row. -/
def clampRow (head : UInt64) (columns : List (String × String)) (name : String) (row : Row) :
    Option Row :=
  (cut head POSITIONED_TABLES name row).map (columns.foldl (lowerAt head name))

/-- How many rows of a table are above the head in a column. -/
def countAbove (db : Database) (head : UInt64) (table column : String) : Nat :=
  (db.rows table).countP (fun row => (row column).exceeds (clampI64 head))

/-- A part of a run ends as expected, or fails where a fault was. -/
def Ends {α : Type} (faults : Stage → Option String) (result : Except Failure α) (expected : α) :
    Prop :=
  result = .ok expected ∨
    ∃ failure stage message, result = .error failure ∧ faults stage = some message

namespace Ends

variable {faults : Stage → Option String}

theorem attempt (stage : Stage) (context : String) :
    Ends faults (Backup.attempt faults stage context) () := by
  unfold Backup.attempt
  cases found : faults stage with
  | none => exact .inl rfl
  | some message => exact .inr ⟨_, stage, message, rfl, found⟩

theorem bind {α β : Type} {result : Except Failure α} {value : α} {next : α → Except Failure β}
    {expected : β} (first : Ends faults result value) (second : Ends faults (next value) expected) :
    Ends faults (result >>= next) expected := by
  rcases first with rfl | ⟨failure, stage, message, rfl, found⟩
  · exact second
  · exact .inr ⟨failure, stage, message, rfl, found⟩

theorem pure {α : Type} (value : α) : Ends faults (Pure.pure value) value := .inl rfl

end Ends

/-! ## One table at a time -/

section Steps

variable (faults : Stage → Option String) (store : OpStore) (head : UInt64)

theorem hasTable_ends (tx : Database) (table : String) :
    Ends faults (hasTable faults tx table) (tx.get table).isSome :=
  (Ends.attempt _ _).bind (Ends.pure _)

/-- A table none of whose rows were touched yet has its rows still. -/
theorem rows_of_untouched {change : String → Row → Option Row} {table : String}
    (untouched : ∀ row, change table row = some row) :
    (store.database.rewrite change).rows table = store.database.rows table := by
  rw [Database.rows_rewrite]
  exact (List.filterMap_congr (fun row _ => untouched row)).trans List.filterMap_some

/-- A table that is not there has no row a change could touch. -/
theorem rewrite_of_missing (change next : String → Row → Option Row) {table : String}
    (missing : (store.database.rewrite change).get table = none)
    (elsewhere : ∀ name row, name ≠ table → (change name row).bind (next name) = change name row) :
    store.database.rewrite (fun name row => (change name row).bind (next name)) =
      store.database.rewrite change := by
  apply Database.rewrite_congr
  intro name row member
  by_cases here : name = table
  · subst here
    have absent : store.database.get name = none := by simpa using missing
    simp [Database.rows, absent] at member
  · exact elsewhere name row here

/-- One table's rows above the head go, once the rows that hang from them are gone. -/
theorem deleteAbove_ends {done : List String} {table : String} (fresh : table ∉ done)
    (listed : (table, "position") ∈ positionColumns)
    (ordered : table = "effect_invocation" → "effect_journal" ∈ done) :
    Ends faults (deleteAbove faults (store.database.rewrite (cut head done)) table head)
      (countAbove store.database head table "position",
        store.database.rewrite (cut head (done ++ [table]))) := by
  have composed : (fun name row => (cut head done name row).bind (fun row =>
      if name = table ∧ (row "position").exceeds (clampI64 head) = true then none else some row)) =
      cut head (done ++ [table]) := by
    funext name row
    unfold cut
    by_cases before : name ∈ done ∧ (row "position").exceeds (clampI64 head) = true
    · simp [before]
    · rw [if_neg before]
      by_cases now : name = table ∧ (row "position").exceeds (clampI64 head) = true
      · simp [now]
      · simp only [Option.bind_some, if_neg now, List.mem_append, List.mem_singleton]
        rw [if_neg]
        rintro ⟨earlier | here, above⟩
        · exact before ⟨earlier, above⟩
        · exact now ⟨here, above⟩
  have untouched : (store.database.rewrite (cut head done)).rows table =
      store.database.rows table := by
    apply rows_of_untouched store
    intro row
    exact if_neg (fun touched => fresh touched.1)
  unfold deleteAbove
  refine (hasTable_ends faults _ table).bind ?_
  cases held : (store.database.rewrite (cut head done)).get table with
  | none =>
      have absent : store.database.rows table = [] := by
        rw [← untouched, Database.rows, held]
        rfl
      have same := rewrite_of_missing store (cut head done)
        (fun name row =>
          if name = table ∧ (row "position").exceeds (clampI64 head) = true then none
          else some row) held (by
            intro name row there
            cases cut head done name row <;> simp [there])
      rw [composed] at same
      rw [countAbove, absent, same]
      exact Ends.pure _
  | some relation =>
      have shaped : (store.database.rewrite (cut head done)).shape table = some relation.shape := by
        rw [Database.shape, held]
        rfl
      rw [Database.shape_rewrite] at shaped
      have rows : relation.rows = store.database.rows table := by
        rw [← untouched, Database.rows, held]
        rfl
      have deletion := Database.deleteWhere_ok (fun cell => cell.exceeds (clampI64 head)) held
         (store.hasColumn shaped listed) (by
          intro child shape key row victim childShape declared parent member _ joined
          rw [Database.shape_rewrite] at childShape
          obtain ⟨rfl, named, columns, parentColumns⟩ := store.foreign childShape declared
          have journalDone := ordered (parent.symm.trans named)
          rw [Database.rows_rewrite, List.mem_filterMap] at member
          obtain ⟨original, _, kept⟩ := member
          unfold cut at kept
          split at kept
          · cases kept
          · next below =>
              cases kept
              have samePosition : row "position" = victim "position" := by
                have equal := (Bool.and_eq_true_iff.mp joined).2
                rw [columns, parentColumns] at equal
                simpa using (List.cons.inj (List.cons.inj (eq_of_beq equal)).2).1
              rw [← samePosition]
              exact Bool.eq_false_iff.mpr (fun above => below ⟨journalDone, above⟩))
      refine (Ends.attempt _ _).bind ?_
      rw [deletion, Database.rewrite_rewrite, composed, rows]
      exact Ends.pure _

/-- Whether each table comes after the tables whose rows hang from its own. -/
def inOrder : List String → List String → Bool
  | _, [] => true
  | done, table :: rest =>
      !done.contains table && positionColumns.contains (table, "position") &&
        (table != "effect_invocation" || done.contains "effect_journal") &&
        inOrder (done ++ [table]) rest

theorem deleteEach_ends {tables done : List String} (order : inOrder done tables = true)
    (discarded : Discarded) :
    Ends faults (deleteEach faults head tables (discarded, store.database.rewrite (cut head done)))
      (tables.foldl (fun discarded table =>
          discarded.deleted table (countAbove store.database head table "position")) discarded,
        store.database.rewrite (cut head (done ++ tables))) := by
  induction tables generalizing done discarded with
  | nil =>
      rw [List.append_nil]
      exact Ends.pure _
  | cons table rest ih =>
      simp only [inOrder, Bool.and_eq_true, Bool.not_eq_true', Bool.or_eq_true, bne_iff_ne,
        List.contains_iff_mem] at order
      obtain ⟨⟨⟨fresh, listed⟩, journal⟩, order⟩ := order
      have step := deleteAbove_ends faults store head (by simpa using fresh) listed (by
          intro invocation
          exact journal.resolve_left (fun other => other invocation))
      have rest := ih order
        (discarded.deleted table (countAbove store.database head table "position"))
      rw [List.append_assoc, List.singleton_append] at rest
      unfold deleteEach
      rw [List.foldlM_cons]
      exact (step.bind (Ends.pure (discarded.deleted table _, _))).bind rest

/-- One table's marks above the head become the head. -/
theorem lower_ends {done : List (String × String)} {table column : String}
    (fresh : ∀ earlier ∈ done, earlier.1 ≠ table) (unpositioned : table ∉ POSITIONED_TABLES)
    (listed : (table, column) ∈ positionColumns) :
    Ends faults (lower faults (store.database.rewrite (clampRow head done)) table column head)
      (countAbove store.database head table column,
        store.database.rewrite (clampRow head (done ++ [(table, column)]))) := by
  have composed : (fun name row => (clampRow head done name row).bind (fun row =>
      some (lowerAt head name row (table, column)))) =
      clampRow head (done ++ [(table, column)]) := by
    funext name row
    unfold clampRow
    cases cut head POSITIONED_TABLES name row with
    | none => rfl
    | some kept => simp
  have untouched : (store.database.rewrite (clampRow head done)).rows table =
      store.database.rows table := by
    apply rows_of_untouched store
    intro row
    have whole : done.foldl (lowerAt head table) row = row := by
      clear composed
      induction done with
      | nil => rfl
      | cons first rest ih =>
          have skip : lowerAt head table row first = row :=
            if_neg (fun touched => fresh first List.mem_cons_self touched.1.symm)
          rw [List.foldl_cons, skip]
          exact ih (fun earlier member => fresh earlier (List.mem_cons_of_mem _ member))
    unfold clampRow cut
    rw [if_neg (fun touched => unpositioned touched.1), Option.map_some, whole]
  unfold lower
  refine (hasTable_ends faults _ table).bind ?_
  cases held : (store.database.rewrite (clampRow head done)).get table with
  | none =>
      have absent : store.database.rows table = [] := by
        rw [← untouched, Database.rows, held]
        rfl
      have same := rewrite_of_missing store (clampRow head done)
        (fun name row => some (lowerAt head name row (table, column))) held (by
          intro name row there
          cases clampRow head done name row <;> simp [lowerAt, there])
      rw [composed] at same
      rw [countAbove, absent, same]
      exact Ends.pure _
  | some relation =>
      have shaped : (store.database.rewrite (clampRow head done)).shape table =
          some relation.shape := by
        rw [Database.shape, held]
        rfl
      rw [Database.shape_rewrite] at shaped
      have rows : relation.rows = store.database.rows table := by
        rw [← untouched, Database.rows, held]
        rfl
      have update := Database.updateWhere_ok (.integer (clampI64 head))
        (fun cell => cell.exceeds (clampI64 head)) held (store.hasColumn shaped listed) (by
          intro child shape key childShape declared
          rw [Database.shape_rewrite] at childShape
          obtain ⟨journal, invocation, -, -⟩ := store.foreign childShape declared
          constructor
          · rintro rfl
            exact unpositioned (by rw [journal]; decide)
          · intro parent
            exact unpositioned (by rw [← parent, invocation]; decide))
      refine (Ends.attempt _ _).bind ?_
      rw [update, Database.rewrite_rewrite, rows]
      unfold lowerAt at composed
      rw [composed]
      exact Ends.pure _

/-- Whether the marks are of different tables, none of which was cut. -/
def apart : List (String × String) → List (String × String) → Bool
  | _, [] => true
  | done, column :: rest =>
      done.all (fun earlier => earlier.1 != column.1) && !POSITIONED_TABLES.contains column.1 &&
        positionColumns.contains column && apart (done ++ [column]) rest

theorem lowerEach_ends {columns done : List (String × String)} (order : apart done columns = true)
    (discarded : Discarded) :
    Ends faults
      (lowerEach faults head columns (discarded, store.database.rewrite (clampRow head done)))
      (columns.foldl (fun discarded column =>
          discarded.lowered column.2 (countAbove store.database head column.1 column.2)) discarded,
        store.database.rewrite (clampRow head (done ++ columns))) := by
  induction columns generalizing done discarded with
  | nil =>
      rw [List.append_nil]
      exact Ends.pure _
  | cons column rest ih =>
      simp only [apart, Bool.and_eq_true, Bool.not_eq_true', List.all_eq_true, bne_iff_ne,
        List.contains_iff_mem] at order
      obtain ⟨⟨⟨fresh, unpositioned⟩, listed⟩, order⟩ := order
      have step := lower_ends faults store head fresh (by simpa using unpositioned) listed
      have rest := ih order
        (discarded.lowered column.2 (countAbove store.database head column.1 column.2))
      rw [List.append_assoc, List.singleton_append] at rest
      unfold lowerEach
      rw [List.foldlM_cons]
      exact (step.bind (Ends.pure (discarded.lowered column.2 _, _))).bind rest

end Steps

/-! ## A whole run -/

/-- What a run reports. -/
def tally (db : Database) (head : UInt64) : Discarded where
  invocations := countAbove db head "effect_invocation" "position"
  journalRows := countAbove db head "effect_journal" "position"
  laneRows := countAbove db head "effect_lane" "position"
  quarantines := countAbove db head "effect_quarantine" "position"
  cursorsLowered := countAbove db head "effect_cursor" "watermark"
  boundariesLowered := countAbove db head "effect_activation" "live_boundary"

/-- The database with every row above the head dropped and every mark above it lowered. -/
def clamped (db : Database) (head : UInt64) : Database :=
  db.rewrite (clampRow head WATERMARK_COLUMNS)

/-- A run clamps the database and counts what it did, or leaves it where a fault was. -/
theorem clampToLog_cases (store : OpStore) (path : String) (faults : Stage → Option String)
    (head : UInt64) :
    clampToLog faults path store.database head =
        (.ok (tally store.database head), clamped store.database head) ∨
      ∃ failure stage message,
        clampToLog faults path store.database head = (.error failure, store.database) ∧
          faults stage = some message := by
  have whole : store.database = store.database.rewrite (cut head []) :=
    (Database.rewrite_eq_self _ _ (fun _ _ _ => if_neg (fun touched => by cases touched.1))).symm
  have cutWhole : cut head POSITIONED_TABLES = clampRow head [] := by
    funext name row
    unfold clampRow
    cases cut head POSITIONED_TABLES name row <;> rfl
  have deleted := deleteEach_ends faults store head
    (by decide : inOrder [] POSITIONED_TABLES = true) {}
  have lowered := lowerEach_ends faults store head
    (by decide : apart [] WATERMARK_COLUMNS = true)
    (POSITIONED_TABLES.foldl (fun discarded table =>
      discarded.deleted table (countAbove store.database head table "position")) {})
  rw [← whole, List.nil_append, cutWhole] at deleted
  have run : Ends faults (clampStatements faults path head store.database)
      (tally store.database head, clamped store.database head) := by
    unfold clampStatements
    refine (Ends.attempt _ _).bind ((Ends.attempt _ _).bind ((Ends.attempt _ _).bind ?_))
    exact deleted.bind (lowered.bind ((Ends.attempt _ _).bind (Ends.pure _)))
  unfold clampToLog Database.transact
  rcases run with ended | ⟨failure, stage, message, failed, found⟩
  · refine .inl ?_
    rw [ended]
  · refine .inr ⟨failure, stage, message, ?_, found⟩
    rw [failed]

/-! ## What is left -/

/-- A row none of whose positions is above the head. -/
def AtOrBelow (head : UInt64) (name : String) (row : Row) : Prop :=
  ∀ place ∈ positionColumns, place.1 = name → ¬Above (row place.2) head

instance (head : UInt64) (name : String) (row : Row) : Decidable (AtOrBelow head name row) :=
  inferInstanceAs (Decidable (∀ place ∈ positionColumns, place.1 = name → ¬Above (row place.2) head))

/-- How many rows a run says it deleted from a table. -/
def Discarded.deletedFrom (discarded : Discarded) : String → Nat
  | "effect_journal" => discarded.journalRows
  | "effect_invocation" => discarded.invocations
  | "effect_lane" => discarded.laneRows
  | "effect_quarantine" => discarded.quarantines
  | _ => discarded.otherRows

/-- How many marks a run says it lowered in a column. -/
def Discarded.loweredIn (discarded : Discarded) : String → Nat
  | "watermark" => discarded.cursorsLowered
  | "live_boundary" => discarded.boundariesLowered
  | _ => discarded.otherRows

/-- What a clamp promises of the database it leaves and of what it reports. -/
structure Clamped (before after : Database) (head : UInt64) (discarded : Discarded) : Prop where
  below : ∀ place ∈ positionColumns, ∀ row ∈ after.rows place.1, ¬Above (row place.2) head
  ranges : ∀ row ∈ after.rows "effect_invocation", ∀ first position,
    row "position" = .integer position → row "collapsed_from" = .integer first →
      first ≤ position → ¬Above (row "collapsed_from") head
  kept : ∀ name, List.Sublist ((before.rows name).filter (fun row => AtOrBelow head name row))
    (after.rows name)
  made : ∀ name, ∀ row ∈ after.rows name, row ∈ before.rows name ∨
    ∃ old ∈ before.rows name, ∃ column, (name, column) ∈ WATERMARK_COLUMNS ∧
      Above (old column) head ∧ row = Function.update old column (.integer (clampI64 head))
  shapes : ∀ name, after.shape name = before.shape name
  parents : ∀ child shape key row parent, before.shape child = some shape → key ∈ shape.foreign →
    row ∈ after.rows child → parent ∈ before.rows key.parent → key.joins row parent = true →
      parent ∈ after.rows key.parent
  deleted : ∀ table ∈ POSITIONED_TABLES,
    discarded.deletedFrom table + (after.rows table).length = (before.rows table).length
  lowered : ∀ place ∈ WATERMARK_COLUMNS,
    discarded.loweredIn place.2 = (before.rows place.1).countP (fun row => Above (row place.2) head) ∧
      (after.rows place.1).length = (before.rows place.1).length
  others : discarded.otherRows = 0

section Clamped

variable (db : Database) (head : UInt64)

theorem clampRow_of_positioned {name : String} (positioned : name ∈ POSITIONED_TABLES) (row : Row) :
    clampRow head WATERMARK_COLUMNS name row =
      if Above (row "position") head then none else some row := by
  have unmarked : ∀ column ∈ WATERMARK_COLUMNS, name ≠ column.1 := by
    intro column member same
    subst same
    revert column
    decide
  have whole : WATERMARK_COLUMNS.foldl (lowerAt head name) row = row := by
    simp only [WATERMARK_COLUMNS, List.foldl_cons, List.foldl_nil]
    rw [lowerAt, lowerAt, if_neg (fun touched => unmarked _ (by decide) touched.1),
      if_neg (fun touched => unmarked _ (by decide) touched.1)]
  unfold clampRow cut
  by_cases above : Above (row "position") head
  · simp [positioned, above, exceeds_clampI64]
  · simp [positioned, above, exceeds_clampI64, whole]

theorem clampRow_of_marked {name column : String} (marked : (name, column) ∈ WATERMARK_COLUMNS)
    (row : Row) :
    clampRow head WATERMARK_COLUMNS name row =
      some (if Above (row column) head then
        Function.update row column (.integer (clampI64 head)) else row) := by
  have unpositioned : name ∉ POSITIONED_TABLES := by
    revert marked
    simp only [WATERMARK_COLUMNS, List.mem_cons, List.not_mem_nil, or_false, Prod.mk.injEq]
    rintro (⟨rfl, rfl⟩ | ⟨rfl, rfl⟩) <;> decide
  have lowered : WATERMARK_COLUMNS.foldl (lowerAt head name) row = lowerAt head name row (name, column) := by
    revert marked
    simp only [WATERMARK_COLUMNS, List.mem_cons, List.not_mem_nil, or_false, Prod.mk.injEq]
    rintro (⟨rfl, rfl⟩ | ⟨rfl, rfl⟩) <;> simp [lowerAt]
  unfold clampRow cut
  rw [if_neg (fun touched => unpositioned touched.1), Option.map_some, lowered]
  unfold lowerAt
  by_cases above : Above (row column) head
  · simp [above, exceeds_clampI64]
  · simp [above, exceeds_clampI64]

theorem clampRow_of_unnamed {name : String} (unnamed : ∀ place ∈ positionColumns, place.1 ≠ name)
    (row : Row) : clampRow head WATERMARK_COLUMNS name row = some row := by
  have unpositioned : name ∉ POSITIONED_TABLES := fun member =>
    unnamed (name, "position") (List.mem_append_left _ (List.mem_map.mpr ⟨name, member, rfl⟩)) rfl
  have whole : WATERMARK_COLUMNS.foldl (lowerAt head name) row = row := by
    simp only [WATERMARK_COLUMNS, List.foldl_cons, List.foldl_nil]
    rw [lowerAt, lowerAt, if_neg (fun touched => unnamed _ (by decide) touched.1.symm),
      if_neg (fun touched => unnamed _ (by decide) touched.1.symm)]
  unfold clampRow cut
  rw [if_neg (fun touched => unpositioned touched.1), Option.map_some, whole]

/-- A table's rows carry a position, or one mark, or neither. -/
theorem place_cases (name : String) :
    (name ∈ POSITIONED_TABLES ∧ ∀ place ∈ positionColumns, place.1 = name → place.2 = "position") ∨
      (∃ column, (name, column) ∈ WATERMARK_COLUMNS ∧
        ∀ place ∈ positionColumns, place.1 = name → place.2 = column) ∨
      ∀ place ∈ positionColumns, place.1 ≠ name := by
  by_cases named : ∃ place ∈ positionColumns, place.1 = name
  · obtain ⟨⟨table, column⟩, member, rfl⟩ := named
    revert column
    dsimp only
    intro column member
    simp only [positionColumns, POSITIONED_TABLES, WATERMARK_COLUMNS, List.map_cons, List.map_nil,
      List.cons_append, List.nil_append, List.mem_cons, List.not_mem_nil, or_false,
      Prod.mk.injEq] at member
    rcases member with ⟨rfl, rfl⟩ | ⟨rfl, rfl⟩ | ⟨rfl, rfl⟩ | ⟨rfl, rfl⟩ | ⟨rfl, rfl⟩ | ⟨rfl, rfl⟩
    · exact .inl (by decide)
    · exact .inl (by decide)
    · exact .inl (by decide)
    · exact .inl (by decide)
    · exact .inr (.inl ⟨"watermark", by decide⟩)
    · exact .inr (.inl ⟨"live_boundary", by decide⟩)
  · exact .inr (.inr (fun place member same => named ⟨place, member, same⟩))

theorem not_above_clampI64 : ¬Above (.integer (clampI64 head)) head := by
  rw [← exceeds_clampI64]
  simp [Cell.exceeds]

@[simp]
theorem rows_clamped (name : String) :
    (clamped db head).rows name = (db.rows name).filterMap (clampRow head WATERMARK_COLUMNS name) :=
  Database.rows_rewrite db _ name

/-- What a row that is left was: itself, at or below the head, or a mark above it. -/
theorem row_of_clamped {name : String} {row : Row} (left : row ∈ (clamped db head).rows name) :
    (row ∈ db.rows name ∧ AtOrBelow head name row) ∨
      ∃ old ∈ db.rows name, ∃ column, (name, column) ∈ WATERMARK_COLUMNS ∧
        (∀ place ∈ positionColumns, place.1 = name → place.2 = column) ∧
        Above (old column) head ∧ row = Function.update old column (.integer (clampI64 head)) := by
  rw [rows_clamped, List.mem_filterMap] at left
  obtain ⟨old, member, kept⟩ := left
  rcases place_cases name with ⟨positioned, only⟩ | ⟨column, marked, only⟩ | unnamed
  · rw [clampRow_of_positioned head positioned] at kept
    split at kept
    · cases kept
    · next below =>
        cases kept
        exact .inl ⟨member, fun place listed same => only place listed same ▸ below⟩
  · rw [clampRow_of_marked head marked] at kept
    cases kept
    by_cases above : Above (old column) head
    · rw [if_pos above]
      exact .inr ⟨old, member, column, marked, only, above, rfl⟩
    · rw [if_neg above]
      exact .inl ⟨member, fun place listed same => only place listed same ▸ above⟩
  · rw [clampRow_of_unnamed head unnamed] at kept
    cases kept
    exact .inl ⟨member, fun place listed same => absurd same (unnamed place listed)⟩

/-- A row at or below the head is left as it is. -/
theorem clampRow_of_atOrBelow {name : String} {row : Row} (settled : AtOrBelow head name row) :
    clampRow head WATERMARK_COLUMNS name row = some row := by
  rcases place_cases name with ⟨positioned, -⟩ | ⟨column, marked, -⟩ | unnamed
  · have listed : (name, "position") ∈ positionColumns :=
      List.mem_append_left _ (List.mem_map.mpr ⟨name, positioned, rfl⟩)
    rw [clampRow_of_positioned head positioned, if_neg (settled _ listed rfl)]
  · have listed : (name, column) ∈ positionColumns := List.mem_append_right _ marked
    rw [clampRow_of_marked head marked, if_neg (settled _ listed rfl)]
  · exact clampRow_of_unnamed head unnamed row

/-- Every row a clamp leaves is at or below the head. -/
theorem atOrBelow_of_clamped {name : String} {row : Row}
    (left : row ∈ (clamped db head).rows name) : AtOrBelow head name row := by
  rcases row_of_clamped db head left with ⟨_, settled⟩ | ⟨old, _, column, _, only, _, rfl⟩
  · exact settled
  · intro place listed same
    rw [only place listed same, Function.update_self]
    exact not_above_clampI64 head

theorem countAbove_eq (table column : String) :
    countAbove db head table column =
      (db.rows table).countP (fun row => Above (row column) head) := by
  unfold countAbove
  apply List.countP_congr
  intro row _
  simp [exceeds_clampI64]

/-- The rows of a table that are deleted and those that are left are all its rows. -/
theorem deleted_clamped {table : String} (positioned : table ∈ POSITIONED_TABLES) :
    countAbove db head table "position" + ((clamped db head).rows table).length =
      (db.rows table).length := by
  rw [rows_clamped, countAbove_eq]
  induction db.rows table with
  | nil => rfl
  | cons row rest ih =>
      rw [List.filterMap_cons, clampRow_of_positioned head positioned, List.countP_cons]
      by_cases above : Above (row "position") head
      · simp only [above, if_true, decide_true, List.length_cons]
        omega
      · simp only [above, if_false, decide_false, Bool.false_eq_true, List.length_cons]
        omega

theorem length_marked {name column : String} (marked : (name, column) ∈ WATERMARK_COLUMNS) :
    ((clamped db head).rows name).length = (db.rows name).length := by
  rw [rows_clamped]
  induction db.rows name with
  | nil => rfl
  | cons row rest ih =>
      rw [List.filterMap_cons, clampRow_of_marked head marked]
      simp [ih]

/-- A clamped database is clamped already. -/
theorem clamped_clamped : clamped (clamped db head) head = clamped db head := by
  apply Database.rewrite_eq_self
  intro name row left
  exact clampRow_of_atOrBelow head (atOrBelow_of_clamped db head left)

theorem tally_clamped : tally (clamped db head) head = {} := by
  have none : ∀ place ∈ positionColumns, countAbove (clamped db head) head place.1 place.2 = 0 := by
    intro place listed
    rw [countAbove_eq, List.countP_eq_zero]
    intro row left above
    exact atOrBelow_of_clamped db head left place listed rfl (of_decide_eq_true above)
  simp only [tally, none ("effect_invocation", "position") (by decide),
    none ("effect_journal", "position") (by decide), none ("effect_lane", "position") (by decide),
    none ("effect_quarantine", "position") (by decide), none ("effect_cursor", "watermark") (by decide),
    none ("effect_activation", "live_boundary") (by decide)]

end Clamped

/-- The database of a schema version stays one. -/
def OpStore.clamped (store : OpStore) (head : UInt64) : OpStore where
  version := store.version
  known := store.known
  database := Backup.clamped store.database head
  shaped name := (Database.shape_rewrite store.database _ name).trans (store.shaped name)

theorem OpStore.clamped_holds (store : OpStore) (head : UInt64) :
    Clamped store.database (Backup.clamped store.database head) head (tally store.database head) where
  below place listed row left := atOrBelow_of_clamped store.database head left place listed rfl
  ranges row left first position here collapsed within := by
    have below := atOrBelow_of_clamped store.database head left ("effect_invocation", "position")
      (by decide) rfl
    rw [here] at below
    rw [collapsed]
    simp only [Above] at below ⊢
    rw [Int64.le_iff_toInt_le] at within
    omega
  kept name := by
    rw [rows_clamped]
    induction store.database.rows name with
    | nil => exact List.Sublist.slnil
    | cons row rest ih =>
        rw [List.filter_cons]
        split
        · next settled =>
            rw [List.filterMap_cons_some (clampRow_of_atOrBelow head (of_decide_eq_true settled))]
            exact ih.cons_cons row
        · rw [List.filterMap_cons]
          split
          · exact ih
          · exact ih.cons _
  made name row left := by
    rcases row_of_clamped store.database head left with
      ⟨member, _⟩ | ⟨old, member, column, marked, _, above, same⟩
    · exact .inl member
    · exact .inr ⟨old, member, column, marked, above, same⟩
  shapes name := Database.shape_rewrite store.database _ name
  parents child shape key row parent held declared left present joined := by
    obtain ⟨rfl, named, columns, parentColumns⟩ := store.foreign held declared
    have below := atOrBelow_of_clamped store.database head left ("effect_journal", "position")
      (by decide) rfl
    have samePosition : row "position" = parent "position" := by
      have equal := (Bool.and_eq_true_iff.mp joined).2
      rw [columns, parentColumns] at equal
      simpa using (List.cons.inj (List.cons.inj (eq_of_beq equal)).2).1
    rw [rows_clamped]
    refine List.mem_filterMap.mpr ⟨parent, present, ?_⟩
    rw [clampRow_of_positioned head (by rw [named]; decide), if_neg (samePosition ▸ below)]
  deleted table positioned := by
    rw [← deleted_clamped store.database head positioned]
    revert table
    simp only [POSITIONED_TABLES, List.forall_mem_cons, List.not_mem_nil, false_implies,
      implies_true, and_true]
    exact ⟨rfl, rfl, rfl, rfl⟩
  lowered place marked := by
    refine ⟨?_, length_marked store.database head marked⟩
    rw [← countAbove_eq]
    revert place
    simp only [WATERMARK_COLUMNS, List.forall_mem_cons, List.not_mem_nil, false_implies,
      implies_true, and_true]
    exact ⟨rfl, rfl⟩
  others := rfl

/-- Whatever tables a copy has and whatever they hold, a run clamps it and
reports exactly what it did, and a second run does nothing; or it fails where a
fault was and the copy is as it was. -/
theorem clampToLog_clamps (store : OpStore) (path : String) (faults : Stage → Option String)
    (head : UInt64) :
    (∃ discarded after,
      clampToLog faults path store.database head = (.ok discarded, after) ∧
        Clamped store.database after head discarded ∧
        ∀ again later,
          clampToLog later again after head = (.ok {}, after) ∨
            ∃ failure, clampToLog later again after head = (.error failure, after)) ∨
      ∃ failure stage message,
        clampToLog faults path store.database head = (.error failure, store.database) ∧
          faults stage = some message := by
  rcases clampToLog_cases store path faults head with ran | failed
  · refine .inl ⟨_, _, ran, store.clamped_holds head, ?_⟩
    intro again later
    rcases clampToLog_cases (store.clamped head) again later head with second | ⟨failure, _, _, second, _⟩
    · refine .inl (second.trans ?_)
      exact Prod.ext (congrArg Except.ok (tally_clamped store.database head))
        (clamped_clamped store.database head)
    · exact .inr ⟨failure, second⟩
  · exact .inr failed

end Hekla.Backup
