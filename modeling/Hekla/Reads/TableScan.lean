import Hekla.Reads.TableRequest
import Hekla.Reads.TableStore

/-!
# A page of rows

One statement reads the key, the folds that were asked for and the column that
rows are ordered by.  The collections are joined in from the side table, where a
key that has none reads as the seed.  A cursor is made of the key and the ordered
column of the last row, in the spelling the store holds.
-/

namespace Hekla.Reads.Tables

open Hekla.Library Hekla.Host
open Hekla.Derived (FieldKind oneRow)

variable (spelling : Spelling)

/-! ## Cells as a reader gets them -/

/-- A sealed cell at rest: the log's ciphertext, and what it takes to open it. -/
structure SealedCell where
  subject : String
  id : String
  field : String
  content : String

def SealedCell.parse (text : String) : Option SealedCell := do
  let json ← spelling.jsonOf text
  let subject ← (json.get "subject").bind Json.asStr
  let id ← (json.get "id").bind Json.asStr
  let field ← (json.get "field").bind Json.asStr
  let content ← (json.get "sealed").bind Json.asStr
  some ⟨subject, id, field, content⟩

/-- An opened text as the value it was sealed as. -/
def unsealedJson (kind : FieldKind) (text : String) : Json :=
  match kind.base with
  | .i64 | .timestamp => (parseI64 text).elim (.str text) fun number => .int number.toInt
  | .bool => if text = "true" then .bool true else if text = "false" then .bool false else .str text
  | .json => (spelling.jsonOf text).getD (.str text)
  | _ => .str text

/-- One cell as a reader gets it.  A seal that does not open reads as absent, and
only a key that cannot be reached at all is an error. -/
def rendered (field : FieldMeta) (cell : Cell) (keystore : Option KeyStore) : Except String Json :=
  if field.sealedUnder.isNone then .ok (fromSql spelling field cell)
  else
    match (fromSql spelling field cell).asStr with
    | none => .ok .null
    | some text =>
        match SealedCell.parse spelling text, keystore with
        | none, _ => .error "a sealed derived cell that is not one"
        | some held, none =>
            let subject := held.subject
            .error s!"a column sealed under `{subject}` cannot be opened without a master key"
        | some held, some keystore =>
            (keystore.decrypt held.subject held.id held.field held.content).map fun opened =>
              opened.elim .null fun text =>
                columnForm spelling field.kind (unsealedJson spelling field.kind text)

/-! ## What is selected -/

/-- One column that is read: a key part, or a fold's, or the ordered one for the
cursor alone, which is shown as nothing. -/
structure Out where
  table : Alias
  column : String
  shown : Option String
  field : FieldMeta
  key : Bool
  seed : Option Cell

/-- A column's cell.  A side column whose key has no row yet reads as its seed. -/
def Out.cell (out : Out) (row : Alias × String → Cell) : Cell :=
  match out.seed with
  | some seed => if row (out.table, out.column) = .null then seed else row (out.table, out.column)
  | none => row (out.table, out.column)

def inMain (sel : Selection) (fold : ColumnDef) : Bool :=
  sel.main.columns.any fun held => held.name == fold.name

def keyOuts (sel : Selection) : List Out :=
  (sel.main.key.zip sel.params).map fun part => ⟨.left, part.1.1, some part.2, part.1.2, true, none⟩

def foldOuts (sel : Selection) : List Out :=
  sel.folds.map fun fold =>
    if inMain sel fold then ⟨.left, fold.name, some fold.fold, fold.field, false, none⟩
    else ⟨.right, fold.name, some fold.fold, fold.field, false, fold.default.map literalCell⟩

/-- The ordered column, where no fold that was asked for is kept in it. -/
def sortOuts (sel : Selection) : Option Order → Except String (List Out)
  | none => .ok []
  | some order =>
      match sel.main.column order.column with
      | none =>
          let column := order.column
          .error s!"no column `{column}`"
      | some column =>
          if sel.folds.any fun fold => fold.name == column.name then .ok []
          else .ok [⟨.left, column.name, none, column.field, false, none⟩]

def outs (sel : Selection) (order : Option Order) : Except String (List Out) :=
  (sortOuts sel order).map fun sorted => keyOuts sel ++ foldOuts sel ++ sorted

/-! ## The statement -/

def partKind (table : TableDef) (name : String) : Except String FieldKind :=
  (table.part name).elim (.error s!"no key part `{name}`") fun field => .ok field.kind

def columnKind (table : TableDef) (name : String) : Except String FieldKind :=
  (table.column name).elim (.error s!"no column `{name}`") fun column => .ok column.field.kind

/-- A column pinned to a value. -/
def pinned (kindOf : String → Except String FieldKind) (given : String × String) :
    Except String (Condition String) := do
  let kind ← kindOf given.1
  let cell ← coerceValue spelling kind given.2
  .ok (.compares [given.1] .eq [cell])

/-- A column bounded at either end or both. -/
def bounded (kindOf : String → Except String FieldKind) (ranged : String × Range) :
    Except String (List (Condition String)) := do
  let kind ← kindOf ranged.1
  ranged.2.bounds.mapM fun bound =>
    (coerceValue spelling kind bound.2).map fun cell => .compares [ranged.1] bound.1 [cell]

def boundedAny (kindOf : String → Except String FieldKind) (ranged : Option (String × Range)) :
    Except String (List (Condition String)) :=
  ranged.elim (.ok []) (bounded spelling kindOf)

/-- The ordered value a page resumes after. -/
def sortBinds (table : TableDef) : Option Order → Option String →
    Except String (List (String × Cell))
  | some order, some value => do
      let kind ← columnKind table order.column
      let cell ← coerceValue spelling kind value
      .ok [(order.column, cell)]
  | _, _ => .ok []

def keyPlaces (table : TableDef) (key : List String) : Except String (List (String × Cell)) :=
  (table.key.zip key).mapM fun part =>
    (coerceValue spelling part.1.2.kind part.2).map fun cell => (part.1.1, cell)

def descends (order : Option Order) : Bool := order.any Order.descending

/-- A page resumes after a whole place, not after its first part. -/
def afterCondition (table : TableDef) (order : Option Order) :
    Option After → Except String (List (Condition String))
  | none => .ok []
  | some after => do
      let value ← sortBinds spelling table order after.value
      let key ← keyPlaces spelling table after.key
      .ok [Statement.after ((value ++ key).map Prod.fst) (descends order) ((value ++ key).map Prod.snd)]

/-- Rows without a value in an ordering are left out of it. -/
def presence (order : Option Order) : List (Condition String) :=
  order.toList.map fun order => .present order.column

/-- What a scan filters by. -/
def filterConditions (table : TableDef) (scan : Scan) : Except String (List (Condition String)) := do
  let equals ← scan.equals.mapM (pinned spelling (partKind table))
  let range ← boundedAny spelling (partKind table) scan.range
  let values ← scan.values.mapM (pinned spelling (columnKind table))
  let valueRange ← boundedAny spelling (columnKind table) scan.valueRange
  .ok (equals ++ range ++ values ++ valueRange ++ presence scan.order)

def selectConditions (table : TableDef) (scan : Scan) : Except String (List (Condition String)) := do
  let filter ← filterConditions spelling table scan
  let after ← afterCondition spelling table scan.order scan.after
  .ok (filter ++ after)

/-- What rows are ordered by: the ordered column, then the key, which breaks ties. -/
def orderColumns (table : TableDef) (order : Option Order) : List String :=
  order.toList.map Order.column ++ table.keyColumns

variable {tables : List TableDef}

/-- The rows a statement reads, with the side table joined in where it is asked for. -/
def source (store : Store spelling tables) (sel : Selection) : List (Alias × String → Cell) :=
  if sel.folds.any fun fold => !inMain sel fold then
    match sideOf tables sel.main with
    | some side => leftJoin sel.main.keyColumns (store.rows sel.main.name) (store.rows side.name)
    | none => (store.rows sel.main.name).map fun row => joinedRow row none
  else (store.rows sel.main.name).map fun row => joinedRow row none

/-- A row as an object, without what reads as absent. -/
def itemOf (outs : List Out) (keystore : Option KeyStore) (row : Alias × String → Cell) :
    Except String Json :=
  outs.foldlM (fun item out =>
    match out.shown with
    | none => .ok item
    | some shown =>
        ((rendered spelling out.field (out.cell row) keystore).mapError fun why =>
          s!"reading `{shown}`: {why}").map fun value =>
            if value.isNull then item else insertMember shown value item) (.obj [])

/-- What a cursor is made of, at a row. -/
def afterAt (outs : List Out) (order : Option Order) (row : Alias × String → Cell) : After where
  value := ((outs.filter fun out => !out.key && order.any fun order => order.column == out.column).map
    fun out => keyText (out.cell row)).getLast?
  key := (outs.filter Out.key).map fun out => keyText (out.cell row)

/-- The rows a scan asks for, each with what a cursor at it is made of. -/
def select (store : Store spelling tables) (sel : Selection) (scan : Scan)
    (keystore : Option KeyStore) : Except String (List (Json × After)) := do
  let outs ← outs sel scan.order
  let conditions ← selectConditions spelling sel.main scan
  let found := Statement.select
    ⟨conditions.map (Statement.rename fun column => (Alias.left, column)),
      (orderColumns sel.main scan.order).map fun column => (Alias.left, column),
      descends scan.order, scan.limit⟩ (source spelling store sel)
  found.mapM fun row =>
    (itemOf spelling outs keystore row).map fun item => (item, afterAt outs scan.order row)

/-! ## A page -/

variable (codec : Codec Cursor)

/-- A page, which is one row less than what is fetched. -/
def scanPage (store : Store spelling tables) (sel : Selection) (scan : Scan)
    (keystore : Option KeyStore) : Except String Served := do
  let fetched ← select spelling store sel { scan with limit := scan.limit + 1 } keystore
  let next := if scan.limit < fetched.length then
      (fetched.take scan.limit).getLast?.map fun row =>
        encodeCursor codec sel.main.name scan.order row.2
    else none
  .ok ⟨⟨(fetched.take scan.limit).map Prod.fst, next⟩, store.position⟩

inductive Failed where
  | refused (refusal : Refusal)
  | internal (why : String)

/-- Read a page off a query string. -/
def readRows (isUuid : String → Bool) (store : Store spelling tables) (sel : Selection)
    (keystore : Option KeyStore) (params : List (String × String)) : Except Failed Served := do
  let scan ← (parseScan spelling isUuid codec sel params).mapError Failed.refused
  (scanPage spelling codec store sel scan keystore).mapError Failed.internal

end Hekla.Reads.Tables
