import Hekla.Library.Table

/-!
# Relations with foreign keys

A database holds relations by name.  A statement rewrites the rows of every
relation one by one, dropping some and changing others, and is refused when a
foreign key that stood would no longer find its parent.  A deletion takes the
rows that hang from its victims with it where their key says so, one level
deep: no relation that carries a key is itself a parent.

A statement that fails has done nothing, and neither has a transaction one of
whose statements failed.
-/

namespace Hekla.Library

/-- What a cell holds.  No modelled column holds a real number. -/
inductive Cell where
  | null
  | integer (value : Int64)
  | text (value : String)
  | blob (bytes : List UInt8)
  deriving DecidableEq

/-- `cell > bound`, which is not true of a null, and is of every text and blob. -/
def Cell.exceeds : Cell → Int64 → Bool
  | .null, _ => false
  | .integer value, bound => decide (bound < value)
  | .text _, _ | .blob _, _ => true

/-- A row, by column. -/
abbrev Row := String → Cell

/-- What becomes of a row when the row it hangs from is deleted. -/
inductive OnDelete where
  | noAction
  | cascade
  deriving DecidableEq

structure ForeignKey where
  columns : List String
  parent : String
  parentColumns : List String
  onDelete : OnDelete := .noAction
  deriving DecidableEq

/-- Whether a row hangs from a parent.  A null in a key hangs from nothing. -/
def ForeignKey.joins (key : ForeignKey) (row parent : Row) : Bool :=
  (key.columns.map row).all (· ≠ .null) && key.columns.map row == key.parentColumns.map parent

/-- The columns of a relation, with their declared types, and its keys. -/
structure Shape where
  columns : List (String × String)
  foreign : List ForeignKey := []
  deriving DecidableEq

def Shape.hasColumn (shape : Shape) (column : String) : Bool :=
  (shape.columns.map Prod.fst).contains column

structure Relation where
  shape : Shape
  rows : List Row

/-- Relations by name. -/
abbrev Database := Table String Relation

inductive SqlError where
  | noTable (table : String)
  | noColumn (table column : String)
  | foreignKey
  | failed (message : String)
  deriving DecidableEq

namespace Database

def shape (db : Database) (name : String) : Option Shape := (db.get name).map Relation.shape

/-- The rows of a relation.  A relation that does not exist has none. -/
def rows (db : Database) (name : String) : List Row := (db.get name).elim [] Relation.rows

/-- Every row rewritten, or dropped. -/
def rewrite (db : Database) (change : String → Row → Option Row) : Database :=
  db.map (fun name relation => { relation with rows := relation.rows.filterMap (change name) })

/-- Whether a key of a row finds no parent. -/
def dangles (db : Database) (key : ForeignKey) (row : Row) : Bool :=
  (key.columns.map row).all (· ≠ .null) && !(db.rows key.parent).any (key.joins row)

/-- Whether a rewritten row lost the parent of a key, or moved a key to where
there is no parent. -/
def breaks (before after : Database) (key : ForeignKey) (row rewritten : Row) : Bool :=
  after.dangles key rewritten &&
    (!before.dangles key row || key.columns.map rewritten != key.columns.map row)

/-- Whether a statement leaves some key broken. -/
def refused (db : Database) (change : String → Row → Option Row) : Bool :=
  db.any (fun name relation => relation.rows.any (fun row =>
    (change name row).any (fun rewritten => relation.shape.foreign.any (fun key =>
      db.breaks (db.rewrite change) key row rewritten))))

/-- One statement, which reports how many rows of its own relation it touched. -/
def execute (db : Database) (name column : String) (touches : Row → Bool)
    (change : String → Row → Option Row) : Except SqlError (Nat × Database) :=
  match db.get name with
  | none => .error (.noTable name)
  | some relation =>
      if relation.shape.hasColumn column then
        if db.refused change then .error .foreignKey
        else .ok (relation.rows.countP touches, db.rewrite change)
      else .error (.noColumn name column)

/-- Whether deleting some rows of a relation takes a row with them. -/
def cascades (db : Database) (name : String) (victims : List Row) (child : String) (row : Row) :
    Bool :=
  ((db.shape child).elim [] Shape.foreign).any (fun key =>
    key.parent == name && key.onDelete == .cascade && victims.any (key.joins row))

/-- `DELETE FROM name WHERE column` passes the test. -/
def deleteWhere (db : Database) (name column : String) (test : Cell → Bool) :
    Except SqlError (Nat × Database) :=
  db.execute name column (fun row => test (row column)) (fun child row =>
    if (child == name && test (row column)) ||
      db.cascades name ((db.rows name).filter (fun victim => test (victim column))) child row
    then none else some row)

/-- `UPDATE name SET column = value WHERE column` passes the test. -/
def updateWhere (db : Database) (name column : String) (value : Cell) (test : Cell → Bool) :
    Except SqlError (Nat × Database) :=
  db.execute name column (fun row => test (row column)) (fun other row =>
    some (if other = name ∧ test (row column) = true then Function.update row column value
      else row))

/-- Run statements against a copy, which replaces the database when all of them succeed. -/
def transact {ε α : Type} (db : Database) (body : Database → Except ε (α × Database)) :
    Except ε α × Database :=
  match body db with
  | .ok (result, copy) => (.ok result, copy)
  | .error error => (.error error, db)

/-! ## What a rewrite leaves -/

@[simp]
theorem get_rewrite (db : Database) (change : String → Row → Option Row) (name : String) :
    (db.rewrite change).get name =
      (db.get name).map (fun relation =>
        { relation with rows := relation.rows.filterMap (change name) }) :=
  Table.get_map db _ name

@[simp]
theorem shape_rewrite (db : Database) (change : String → Row → Option Row) (name : String) :
    (db.rewrite change).shape name = db.shape name := by
  simp [shape, Function.comp_def]

@[simp]
theorem rows_rewrite (db : Database) (change : String → Row → Option Row) (name : String) :
    (db.rewrite change).rows name = (db.rows name).filterMap (change name) := by
  unfold rows
  rw [get_rewrite]
  cases db.get name <;> rfl

theorem rewrite_rewrite (db : Database) (change next : String → Row → Option Row) :
    (db.rewrite change).rewrite next =
      db.rewrite (fun name row => (change name row).bind (next name)) := by
  unfold rewrite
  rw [Table.map_map]
  simp only [List.filterMap_filterMap]

/-- A rewrite that keeps every row of every relation keeps the database. -/
theorem rewrite_eq_self (db : Database) (change : String → Row → Option Row)
    (kept : ∀ name row, row ∈ db.rows name → change name row = some row) :
    db.rewrite change = db := by
  refine Table.map_eq_self db _ ?_
  intro name relation held
  have same : relation.rows.filterMap (change name) = relation.rows := by
    refine (List.filterMap_congr ?_).trans List.filterMap_some
    intro row member
    exact kept name row (by simpa [rows, held] using member)
  rw [same]

theorem rewrite_congr (db : Database) (change next : String → Row → Option Row)
    (same : ∀ name row, row ∈ db.rows name → change name row = next name row) :
    db.rewrite change = db.rewrite next := by
  refine AList.ext (List.map_congr_left ?_)
  intro entry member
  have held := (Table.get_eq_some_iff db entry.1 entry.2).mpr member
  have rowwise : entry.2.rows.filterMap (change entry.1) = entry.2.rows.filterMap (next entry.1) := by
    refine List.filterMap_congr ?_
    intro row within
    exact same entry.1 row (by simpa [rows, held] using within)
  dsimp only
  rw [rowwise]

/-! ## When a statement is accepted -/

/-- A statement that changes no key and takes no parent away is not refused. -/
theorem not_refused (db : Database) (change : String → Row → Option Row)
    (kept : ∀ child shape key row rewritten, db.shape child = some shape → key ∈ shape.foreign →
      row ∈ db.rows child → change child row = some rewritten →
      key.columns.map rewritten = key.columns.map row ∧
        ∀ parent ∈ db.rows key.parent, key.joins row parent = true →
          ∃ now, change key.parent parent = some now ∧
            key.parentColumns.map now = key.parentColumns.map parent) :
    db.refused change = false := by
  refine Bool.eq_false_iff.mpr ?_
  intro refusal
  obtain ⟨child, relation, held, broken⟩ := (Table.any_eq_true _ _).mp refusal
  obtain ⟨row, member, broken⟩ := List.any_eq_true.mp broken
  obtain ⟨rewritten, changed, broken⟩ := (Option.any_eq_true _ _).mp broken
  obtain ⟨key, declared, broken⟩ := List.any_eq_true.mp broken
  have childShape : db.shape child = some relation.shape := by simp [shape, held]
  have childRow : row ∈ db.rows child := by simpa [rows, held] using member
  obtain ⟨sameKey, parents⟩ :=
    kept child relation.shape key row rewritten childShape declared childRow changed
  simp only [breaks, dangles, sameKey, Bool.and_eq_true, Bool.or_eq_true, Bool.not_eq_true',
    bne_self_eq_false, Bool.false_eq_true, or_false] at broken
  obtain ⟨⟨keyed, orphaned⟩, stood⟩ := broken
  rw [keyed, Bool.true_and] at stood
  have found : (db.rows key.parent).any (key.joins row) = true := by simpa using stood
  obtain ⟨parent, present, joined⟩ := List.any_eq_true.mp found
  obtain ⟨now, survives, sameParent⟩ := parents parent present joined
  have rejoined : key.joins rewritten now = true := by
    unfold ForeignKey.joins
    rw [sameKey, sameParent]
    exact joined
  have listed : now ∈ (db.rewrite change).rows key.parent := by
    rw [rows_rewrite]
    exact List.mem_filterMap.mpr ⟨parent, present, survives⟩
  exact Bool.false_ne_true
    (orphaned.symm.trans (List.any_eq_true.mpr ⟨now, listed, rejoined⟩))

/-- Deleting rows no row hangs from takes exactly those rows. -/
theorem deleteWhere_ok {db : Database} {name column : String} (test : Cell → Bool)
    {relation : Relation} (held : db.get name = some relation)
    (columned : relation.shape.hasColumn column = true)
    (free : ∀ child shape key row victim, db.shape child = some shape → key ∈ shape.foreign →
      key.parent = name → row ∈ db.rows child → victim ∈ db.rows name →
      key.joins row victim = true → test (victim column) = false) :
    db.deleteWhere name column test =
      .ok (relation.rows.countP (fun row => test (row column)),
        db.rewrite (fun other row =>
          if other = name ∧ test (row column) = true then none else some row)) := by
  have alone : ∀ child row, row ∈ db.rows child →
      db.cascades name ((db.rows name).filter (fun victim => test (victim column))) child row =
        false := by
    intro child row member
    refine Bool.eq_false_iff.mpr ?_
    intro taken
    obtain ⟨key, declared, taken⟩ := List.any_eq_true.mp taken
    obtain ⟨taken, joined⟩ := Bool.and_eq_true_iff.mp taken
    have parent : key.parent = name := by simpa using (Bool.and_eq_true_iff.mp taken).1
    obtain ⟨victim, present, joins⟩ := List.any_eq_true.mp joined
    obtain ⟨present, tested⟩ := List.mem_filter.mp present
    cases childShape : db.shape child with
    | none =>
        rw [childShape] at declared
        cases declared
    | some shape =>
        rw [childShape] at declared
        have untested := free child shape key row victim childShape declared parent member present joins
        exact Bool.false_ne_true (untested.symm.trans tested)
  have accepted : db.refused (fun child row =>
      if (child == name && test (row column)) ||
        db.cascades name ((db.rows name).filter (fun victim => test (victim column))) child row
      then none else some row) = false := by
    apply not_refused
    intro child shape key row rewritten childShape declared member changed
    have same : rewritten = row := by
      split at changed
      · cases changed
      · exact (Option.some.inj changed).symm
    refine ⟨by rw [same], ?_⟩
    intro parent present joined
    refine ⟨parent, ?_, rfl⟩
    rw [alone key.parent parent present, Bool.or_false, if_neg]
    intro taken
    obtain ⟨here, tested⟩ := Bool.and_eq_true_iff.mp taken
    have named : key.parent = name := by simpa using here
    rw [named] at present
    have untested := free child shape key row parent childShape declared named member present joined
    exact Bool.false_ne_true (untested.symm.trans tested)
  unfold deleteWhere execute
  simp only [held, columned, accepted, if_true, Bool.false_eq_true, if_false]
  refine congrArg (fun left => Except.ok (_, left)) (rewrite_congr db _ _ ?_)
  intro other row member
  simp [alone other row member]

/-- An update of a column no key names changes exactly the rows it tests. -/
theorem updateWhere_ok {db : Database} {name column : String} (value : Cell) (test : Cell → Bool)
    {relation : Relation} (held : db.get name = some relation)
    (columned : relation.shape.hasColumn column = true)
    (keyless : ∀ child shape key, db.shape child = some shape → key ∈ shape.foreign →
      child ≠ name ∧ key.parent ≠ name) :
    db.updateWhere name column value test =
      .ok (relation.rows.countP (fun row => test (row column)),
        db.rewrite (fun other row =>
          some (if other = name ∧ test (row column) = true then Function.update row column value
            else row))) := by
  have accepted : db.refused (fun other row =>
      some (if other = name ∧ test (row column) = true then Function.update row column value
        else row)) = false := by
    apply not_refused
    intro child shape key row rewritten childShape declared member changed
    obtain ⟨notHere, notParent⟩ := keyless child shape key childShape declared
    rw [if_neg (fun here => notHere here.1)] at changed
    cases changed
    refine ⟨rfl, ?_⟩
    intro parent present joined
    exact ⟨parent, by rw [if_neg (fun here => notParent here.1)], rfl⟩
  unfold updateWhere execute
  simp only [held, columned, accepted, if_true, Bool.false_eq_true, if_false]

/-- A transaction that fails leaves the database as it was. -/
theorem transact_error {ε α : Type} {db : Database} {body : Database → Except ε (α × Database)}
    {error : ε} {after : Database} (failed : db.transact body = (.error error, after)) :
    after = db := by
  unfold transact at failed
  split at failed
  · cases failed
  · exact (congrArg Prod.snd failed).symm

end Database

end Hekla.Library
