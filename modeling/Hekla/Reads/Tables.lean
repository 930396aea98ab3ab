import Hekla.Reads.Api

/-!
# The tables a row read serves

A stored fold is a column of the table of its key signature, and a collection
one a column of the table beside it.  A reader names folds that share a key, and
speaks of the key's parts by the parameters of the first of them.
-/

namespace Hekla.Reads

open Hekla.Library Hekla.Host
open Hekla.Derived (FieldKind IndexDef oneRow)

/-- An ordering a fold declares: its column, after the key parts and the sibling
columns that lead it. -/
structure SortDef where
  column : String
  lead : List String
  values : List String
  index : String
  deriving DecidableEq

/-- One column, and the fold it is kept for. -/
structure ColumnDef where
  name : String
  fold : String
  /-- The fold's own name for each part of the key. -/
  args : List String
  /-- The fold's seed as a literal. -/
  default : Option String := none
  field : FieldMeta
  served : Bool := true

structure TableDef where
  name : String
  /-- The table this one holds columns of, which is itself for a main table. -/
  source : String
  key : List (String × FieldMeta)
  columns : List ColumnDef
  indexes : List IndexDef
  sorts : List SortDef

/-- The value of a literal that a seed is written as. -/
def literalCell (literal : String) : Cell :=
  match literal.toList with
  | '\'' :: rest => .text ((String.ofList rest.dropLast).replace "''" "'")
  | _ => (parseI64 literal).elim .null .integer

def ColumnDef.seed (column : ColumnDef) : Cell := column.default.elim .null literalCell

/-- A cell that some text of its kind names. -/
def Held (spelling : Spelling) (kind : FieldKind) (cell : Cell) : Prop :=
  ∃ text, coerceValue spelling kind text = .ok cell

namespace TableDef

/-- The columns of the primary key.  A keyless table has its guard column. -/
def keyColumns (table : TableDef) : List String :=
  if table.key.isEmpty then [oneRow] else table.key.map Prod.fst

def part (table : TableDef) (name : String) : Option FieldMeta :=
  (table.key.find? fun part => part.1 == name).map Prod.snd

def column (table : TableDef) (name : String) : Option ColumnDef :=
  table.columns.find? fun column => column.name == name

/-- What the layout of a checked program gives each table.  A seed is a value of
its column, and sealed content is not ordered by. -/
structure Formed (spelling : Spelling) (table : TableDef) : Prop where
  distinct : (table.keyColumns ++ table.columns.map ColumnDef.name).Nodup
  seeds : ∀ column ∈ table.columns, column.field.sealedUnder = none →
    column.seed = .null ∨ Held spelling column.field.kind column.seed
  args : ∀ column ∈ table.columns, column.args.length = table.key.length
  sorts : ∀ sort ∈ table.sorts, ∃ column, table.column sort.column = some column ∧
    column.field.sealedUnder = none

end TableDef

/-- The main table of a key signature. -/
def mainOf (tables : List TableDef) (source : String) : Option TableDef :=
  tables.find? fun table => table.source == source && table.name == source

/-- The table that holds the collections of a main one. -/
def sideOf (tables : List TableDef) (main : TableDef) : Option TableDef :=
  tables.find? fun table => table.source == main.name && table.name != main.name

/-- The tables of a program.  A side table has the key of the table it splits, and
each is known by its own name. -/
structure Laid (spelling : Spelling) (tables : List TableDef) : Prop where
  names : (tables.map TableDef.name).Nodup
  formed : ∀ table ∈ tables, table.Formed spelling
  split : ∀ one ∈ tables, ∀ other ∈ tables, one.source = other.source → one.key = other.key

/-! ## What a read names -/

/-- A request that will not be served, and what a client branches on. -/
structure Refusal where
  code : String
  message : String
  deriving DecidableEq

namespace Refusal

def invalid (message : String) : Refusal := ⟨"invalid_input", message⟩

def unindexed (message : String) : Refusal := ⟨"unindexed_filter", message⟩

end Refusal

inductive Unselected where
  | missing (fold : String)
  | unserved (fold : String)
  | refused (refusal : Refusal)

/-- The folds a row read names, in the order they are listed, and the tables that
record them. -/
structure Selection where
  main : TableDef
  side : Option TableDef
  opening : ColumnDef
  others : List ColumnDef

namespace Selection

variable (sel : Selection)

def folds : List ColumnDef := sel.opening :: sel.others

/-- What a request calls each key part: the first fold's parameters. -/
def params : List String := sel.opening.args

def first : String := sel.opening.fold

/-- The key part a parameter names. -/
def part (param : String) : Option String :=
  (sel.params.idxOf? param).bind fun index => (sel.main.key[index]?).map Prod.fst

/-- The parameter a key part is called. -/
def spoken (part : String) : String :=
  sel.params.getD (sel.main.key.findIdx fun known => known.1 == part) part

def spokenList (parts : List String) : String := ", ".intercalate (parts.map sel.spoken)

/-- What the first fold selects by itself. -/
def alone : Selection := { sel with others := [] }

/-- The fold kept in a column of the main table. -/
def foldOf (column : String) : String := (sel.main.column column).elim column ColumnDef.fold

end Selection

/-- Where a stored fold is kept. -/
def locate (tables : List TableDef) (fold : String) : Option (TableDef × ColumnDef) :=
  (tables.findSome? fun table =>
    (table.columns.find? fun column => column.fold == fold).map fun column => (table, column)).bind
  fun held => (mainOf tables held.1.source).map fun main => (main, held.2)

def locateServed (tables : List TableDef) (fold : String) :
    Except Unselected (TableDef × ColumnDef) :=
  match locate tables fold with
  | none => .error (.missing fold)
  | some (main, column) => if column.served then .ok (main, column) else .error (.unserved fold)

/-- One more fold of the same key. -/
def addFold (tables : List TableDef) (sel : Selection) (fold : String) :
    Except Unselected Selection :=
  match locateServed tables fold with
  | .error why => .error why
  | .ok (held, column) =>
      if sel.folds.any fun kept => kept.fold == fold then
        .error (.refused (.invalid s!"`{fold}` is listed twice"))
      else if held.name != sel.main.name then
        let first := sel.first
        .error (.refused (.invalid (s!"`{fold}` is not keyed like `{first}`, so the two have no row " ++
          "in common; read them separately")))
      else .ok { sel with others := sel.others ++ [column] }

/-- The folds named, checked to share one key. -/
def pick (tables : List TableDef) : List String → Except Unselected Selection
  | [] => .error (.refused (.invalid "`folds` names no fold; list the folds to read, comma separated"))
  | first :: rest => do
      let (main, column) ← locateServed tables first
      rest.foldlM (addFold tables) ⟨main, sideOf tables main, column, []⟩

/-- A selection that a list of folds makes. -/
structure Picked (tables : List TableDef) (sel : Selection) : Prop where
  main : sel.main ∈ tables
  source : sel.main.source = sel.main.name
  args : sel.params.length = sel.main.key.length

variable {spelling : Spelling} {tables : List TableDef}

theorem picked_of_locateServed (laid : Laid spelling tables) {fold : String} {main : TableDef}
    {column : ColumnDef} (located : locateServed tables fold = .ok (main, column)) :
    Picked tables ⟨main, sideOf tables main, column, []⟩ := by
  unfold locateServed locate at located
  cases found : (tables.findSome? fun table =>
      (table.columns.find? fun column => column.fold == fold).map fun column => (table, column)) with
  | none =>
      rw [found] at located
      cases located
  | some held =>
      rw [found, Option.bind_some] at located
      cases recorded : mainOf tables held.1.source with
      | none =>
          rw [recorded] at located
          cases located
      | some other =>
          rw [recorded, Option.map_some] at located
          dsimp only at located
          split at located
          · cases located
            obtain ⟨table, known, matched⟩ := List.exists_of_findSome?_eq_some found
            obtain ⟨kept, first, rfl⟩ := Option.map_eq_some_iff.mp matched
            have member := List.mem_of_find?_eq_some recorded
            have test := List.find?_some recorded
            rw [Bool.and_eq_true, beq_iff_eq, beq_iff_eq] at test
            have width := (laid.formed table known).args _ (List.mem_of_find?_eq_some first)
            refine ⟨member, test.1.trans test.2.symm, ?_⟩
            rw [← laid.split table known main member test.1.symm]
            exact width
          · cases located

theorem Picked.addFold {before after : Selection} {fold : String}
    (known : Picked tables before) (added : addFold tables before fold = .ok after) :
    Picked tables after := by
  unfold Reads.addFold at added
  split at added
  · cases added
  · split at added
    · cases added
    · split at added
      · cases added
      · cases added
        exact ⟨known.main, known.source, known.args⟩

theorem picked_of_pick (laid : Laid spelling tables) {names : List String} {sel : Selection}
    (picked : pick tables names = .ok sel) : Picked tables sel := by
  cases names with
  | nil => cases picked
  | cons first rest =>
      unfold pick at picked
      obtain ⟨⟨main, column⟩, located, added⟩ := bind_ok.mp picked
      exact pass_keeps (fun _ => True) (Picked tables) (fun _ known added => known.addFold added)
        (fun _ _ => trivial) (picked_of_locateServed laid located) added

/-- A fold that leads a list is selected by itself as it is there. -/
theorem pick_alone {names : List String} {sel : Selection} (picked : pick tables names = .ok sel) :
    pick tables (names.take 1) = .ok sel.alone := by
  cases names with
  | nil => cases picked
  | cons first rest =>
      unfold pick at picked
      obtain ⟨⟨main, column⟩, located, added⟩ := bind_ok.mp picked
      have kept : (⟨main, sideOf tables main, column, []⟩ : Selection) = sel.alone := by
        refine pass_keeps (fun _ => True) (fun held => (⟨main, sideOf tables main, column, []⟩ : Selection) =
          held.alone) ?_ (fun _ _ => trivial) rfl added
        intro held next fold _ same added
        unfold addFold at added
        split at added
        · cases added
        · split at added
          · cases added
          · split at added
            · cases added
            · cases added
              exact same
      rw [List.take_succ_cons, List.take_zero]
      unfold pick
      dsimp only
      rw [located, ← kept]
      rfl

end Hekla.Reads
