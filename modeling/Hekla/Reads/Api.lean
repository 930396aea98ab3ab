import Hekla.Library.Base64
import Hekla.Reads.ReadModel

/-!
# Scans of a read model

A scan matches rows by equality on the leading columns of a declared index and a
range on the next, sorts them by an index or by the key, and hands out a cursor
that holds the sorted columns of the last row it served.  The key ends every
ordering, so no two rows share a place in one.
-/

namespace Hekla.Reads

open Hekla.Library Hekla.Host
open Hekla.Derived (FieldKind IndexDef)

def defaultLimit : Nat := 50

def maxLimit : Nat := 500

/-! ## What a scan is asked for -/

/-- Whether an end of a range includes its own value. -/
inductive Bound where
  | inclusive
  | exclusive
  deriving DecidableEq

def Bound.operator (lower : Bool) : Bound → Operator
  | .inclusive => if lower then .ge else .le
  | .exclusive => if lower then .gt else .lt

structure Range where
  lower : Option (Bound × String) := none
  upper : Option (Bound × String) := none
  deriving DecidableEq

/-- Both ends, lower first, with the comparison each one makes. -/
def Range.bounds (range : Range) : List (Operator × String) :=
  (range.lower.map fun bound => (bound.1.operator true, bound.2)).toList ++
    (range.upper.map fun bound => (bound.1.operator false, bound.2)).toList

structure Filter where
  equals : List (String × String) := []
  range : Option (String × Range) := none
  deriving DecidableEq

/-- Every column mentioned. -/
def Filter.columns (filter : Filter) : List String :=
  filter.equals.map Prod.fst ++ (filter.range.map Prod.fst).toList

/-- The index to sort by, or the key, and the direction. -/
structure Order where
  index : Option String := none
  descending : Bool := false
  deriving DecidableEq

/-- Which ordering a page was taken under, and where in it the page ended. -/
structure Cursor where
  ordering : String
  values : List String
  deriving DecidableEq

structure Query where
  filter : Filter
  order : Order
  cursor : Option Cursor
  limit : Nat

namespace Order

/-- The spelling of an ordering, which a cursor records. -/
def token (order : Order) (entity : EntityDef) : String :=
  (if order.descending then "-" else "") ++ order.index.getD entity.key

/-- The columns an ordering sorts by, outermost first. -/
def columns (order : Order) (entity : EntityDef) : List String :=
  match order.index with
  | none => [entity.key]
  | some name =>
      match entity.indexes.find? fun index => index.name == name with
      | some index => entity.indexColumns index
      | none => [entity.key]

end Order

/-! ## The index that serves it -/

inductive Access where
  | key
  | index (name : String)
  deriving DecidableEq

/-- Whether the equality columns lead an index and the range column is the next. -/
def serves (index : IndexDef) (filter : Filter) : Bool :=
  filter.equals.length ≤ index.columns.length &&
    (filter.equals.all fun equal =>
      (index.columns.take filter.equals.length).contains equal.1) &&
    match filter.range with
    | some (column, _) => index.columns[filter.equals.length]? == some column
    | none => true

/-- The index with the fewest columns, the first declared of several. -/
def narrowest : List IndexDef → Option IndexDef
  | [] => none
  | index :: rest =>
      match narrowest rest with
      | some other => if other.columns.length < index.columns.length then some other else some index
      | none => some index

def chooseForKeyOrder (entity : EntityDef) (filter : Filter) : Option Access :=
  if filter.columns.all (· == entity.key) then some .key
  else (narrowest (entity.indexes.filter (serves · filter))).map fun index => .index index.name

/-- The index a filter is served by.  An ordering that names one decides it. -/
def chooseIndex (entity : EntityDef) (filter : Filter) (order : Order) : Option Access :=
  match order.index with
  | none => chooseForKeyOrder entity filter
  | some name =>
      (entity.indexes.find? fun index => index.name == name).bind fun index =>
        if serves index filter then some (.index index.name) else none

/-! ## What is refused -/

def checkValue (spelling : Spelling) (name : String) (kind : FieldKind) (value : String) :
    Except String Unit :=
  match coerceValue spelling kind value with
  | .ok _ => .ok ()
  | .error why => .error s!"filter `{name}`: {why}"

def checkFilter (spelling : Spelling) (entity : EntityDef) (filter : Filter) :
    Except String Unit := do
  filter.equals.forM fun equal =>
    match entity.field equal.1 with
    | some field => checkValue spelling equal.1 field.kind equal.2
    | none => .ok ()
  match filter.range with
  | none => .ok ()
  | some (column, range) =>
      match entity.field column with
      | none => .ok ()
      | some field =>
          if field.kind.base.isComparable then
            range.bounds.forM fun bound => checkValue spelling column field.kind bound.2
          else .error (s!"filter `{column}` is {field.kind.describe}, which has no order a range " ++
            "could use; filter it for equality instead")

/-- An ordering by the name of an index or of the key, reversed by a dash. -/
def parseOrder (entity : EntityDef) (raw : String) : Except String Order :=
  let (descending, name) := match raw.toList with
    | '-' :: rest => (true, String.ofList rest)
    | _ => (false, raw)
  if entity.indexes.any fun index => index.name == name then .ok ⟨some name, descending⟩
  else if name = entity.key then .ok ⟨none, descending⟩
  else .error (s!"`{name}` is not an ordering of entity `{entity.name}`; order by one of " ++
    ", ".intercalate (entity.indexes.map IndexDef.name ++ [entity.key]) ++
    ", each optionally prefixed with `-` to reverse it")

/-- Why a column of an index cannot sort rows. -/
def columnProblem (entity : EntityDef) (index : IndexDef) (column : String) : Option String :=
  match entity.field column with
  | none => some (s!"index `{index.name}` cannot order rows: it names `{column}`, which entity " ++
      s!"`{entity.name}` does not declare")
  | some field =>
      if field.isNullable then
        some (s!"index `{index.name}` cannot order rows: `{column}` is optional, and a row-value " ++
          "comparison against NULL matches nothing, so a page boundary would drop every row " ++
          s!"whose `{column}` is absent. It stays filterable.")
      else if field.kind.base.isComparable then none
      else some (s!"index `{index.name}` cannot order rows: `{column}` is " ++
        s!"{field.kind.describe}, which has no order an ordering could use. It stays filterable.")

/-- Why an index cannot sort rows.  The key it ends in is not looked at. -/
def orderingProblem (entity : EntityDef) (index : IndexDef) : Option String :=
  index.columns.findSome? (columnProblem entity index)

def noIndexFor (entity : EntityDef) (filter : Filter) (order : Order) : String :=
  let asked := ", ".intercalate filter.columns
  match order.index with
  | some name =>
      let columns := ((entity.indexes.find? fun index => index.name == name).map
        fun index => ", ".intercalate index.columns).getD ""
      let token := order.token entity
      s!"filter on ({asked}) is not a prefix of `{name}` ({columns}), and `order_by={token}` " ++
      "asks for the rows in that index's order, so no other index can serve it. " ++
      s!"Filter on a prefix of `{name}`, or drop the ordering."
  | none =>
      let declared := if entity.indexes.isEmpty then
          s!"`{entity.name}` declares no index, so its key `{entity.key}` is the only column a " ++
          "filter can reach"
        else s!"`{entity.name}` declares " ++ ", ".intercalate (entity.indexes.map fun index =>
          "index (" ++ ", ".intercalate index.columns ++ ")")
      s!"filter on ({asked}) is not a prefix of any declared index: {declared}. A filter is " ++
      "equality on an index's leading columns, optionally with a range on the column after them."

/-! ## The statement -/

variable (spelling : Spelling) (entity : EntityDef)

def bindAs (column value : String) : Cell :=
  match entity.field column with
  | some field => bindOrText spelling field.kind value
  | none => .text value

/-- The cursor's tuple, where it is as wide as the ordering. -/
def usableCursor (query : Query) : Option (List String) :=
  (query.cursor.map Cursor.values).filter fun values =>
    values.length == (query.order.columns entity).length

/-- A statement whose values are bound by position, the limit last. -/
structure ScanSql where
  access : Access
  clauses : List (List String × Operator)
  order : List String
  descending : Bool
  deriving DecidableEq

def scanSql (query : Query) (access : Access) : ScanSql where
  access := access
  clauses :=
    (query.filter.equals.map fun equal => ([equal.1], Operator.eq)) ++
    (query.filter.range.elim [] fun ranged =>
      ranged.2.bounds.map fun bound => ([ranged.1], bound.1)) ++
    (if (usableCursor entity query).isSome then
      [(query.order.columns entity, if query.order.descending then .lt else .gt)]
    else [])
  order := query.order.columns entity
  descending := query.order.descending

def filterBinds (filter : Filter) : List Cell :=
  (filter.equals.map fun equal => bindAs spelling entity equal.1 equal.2) ++
  filter.range.elim [] fun ranged =>
    ranged.2.bounds.map fun bound => bindAs spelling entity ranged.1 bound.2

def cursorBinds (query : Query) : List Cell :=
  match usableCursor entity query with
  | none => []
  | some values =>
      ((query.order.columns entity).zip values).map fun pair => bindAs spelling entity pair.1 pair.2

/-- Give each clause the values it takes, in order; what is left comes after. -/
def bindClauses : List (List String × Operator) → List Cell → Option (List (Condition String) × List Cell)
  | [], binds => some ([], binds)
  | (columns, operator) :: rest, binds =>
      if columns.length ≤ binds.length then
        (bindClauses rest (binds.drop columns.length)).map fun bound =>
          (.compares columns operator (binds.take columns.length) :: bound.1, bound.2)
      else none

/-- Run a statement.  A negative limit is none. -/
def ScanSql.run (sql : ScanSql) (binds : List Cell) (rows : List Row) :
    Except String (List Row) :=
  match bindClauses sql.clauses binds with
  | some (conditions, [.integer limit]) =>
      .ok (Statement.select ⟨conditions, sql.order, sql.descending,
        if limit < 0 then rows.length else limit.toNatClampNeg⟩ rows)
  | _ => .error "wrong number of parameters"

def scanStatement (query : Query) : Except String (ScanSql × List Cell) :=
  match chooseIndex entity query.filter query.order with
  | none => .error s!"no declared index on `{entity.name}` serves this filter"
  | some access =>
      .ok (scanSql entity query access, filterBinds spelling entity query.filter ++
        cursorBinds spelling entity query ++ [.integer (.ofNat query.limit)])

/-- The rows of a scan, as objects. -/
def scanRows (rows : List Row) (query : Query) : Except String (List Json) := do
  let (sql, binds) ← scanStatement spelling entity query
  let found ← sql.run binds rows
  .ok (found.map (rowToJson spelling entity))

/-! ## Sealed columns -/

/-- The keys there are.  A value whose key is gone is no text, and only a master
that cannot be had is an error. -/
structure KeyStore where
  decrypt : (subject id field ciphertext : String) → Except String (Option String)

/-- A decrypted text as a value of its kind. -/
def typedFromString (kind : FieldKind) (text : String) : Json :=
  match kind.base with
  | .i64 => (parseI64 text).elim (.str text) fun number => .int number.toInt
  | .bool => if text = "true" then .bool true else if text = "false" then .bool false else .str text
  | .json => (spelling.jsonOf text).getD (.str text)
  | _ => .str text

def insertMember (name : String) (value : Json) : Json → Json
  | .obj members => .obj (members.filter (fun member => member.1 != name) ++ [(name, value)])
  | other => other

def removeMember (name : String) : Json → Json
  | .obj members => .obj (members.filter fun member => member.1 != name)
  | other => other

/-- Decrypt one column of a row, or take out what no longer reads. -/
def decryptColumn (keystore : KeyStore) (row : Json) (column : String × FieldMeta) :
    Except String Json :=
  match column.2.sealedUnder, (row.get column.1).bind Json.asStr with
  | some filed, some ciphertext =>
      match (row.get filed.idField).bind scalarToString with
      | none => .ok (removeMember column.1 row)
      | some id =>
          match keystore.decrypt filed.subject id column.1 ciphertext with
          | .error why => .error s!"decrypting column `{column.1}`: {why}"
          | .ok (some text) =>
              .ok (insertMember column.1 (typedFromString spelling column.2.kind text) row)
          | .ok none => .ok (removeMember column.1 row)
  | _, _ => .ok row

def decryptRow (keystore : Option KeyStore) (row : Json) : Except String Json :=
  match keystore with
  | none => .ok row
  | some keystore => entity.fields.foldlM (decryptColumn spelling keystore) row

/-! ## A page -/

/-- A page of rows, and how far the log had been projected when it was read. -/
structure Served where
  page : Page Json String
  position : Nat

variable (codec : Codec Cursor)

/-- An ordering column of a served row, as text. -/
def columnText (row : Json) (column : String) : Except String String :=
  match (row.get column).bind scalarString with
  | some value => .ok value
  | none => .error (s!"cannot describe where this page ended: ordering column `{column}` is " ++
      "not a scalar in this row")

/-- The cursor that resumes after a row. -/
def cursorAt (query : Query) (row : Json) : Except String String := do
  let values ← (query.order.columns entity).mapM (columnText row)
  .ok (codec.encode ⟨query.order.token entity, values⟩)

/-- The cursor after a page, when more was fetched than it holds. -/
def nextCursor (query : Query) (fetched : List Json) : Except String (Option String) :=
  if query.limit < fetched.length then
    match (fetched.take query.limit).getLast? with
    | some row => (cursorAt entity codec query row).map some
    | none => .ok none
  else .ok none

/-- Read one page, which is one row less than what is fetched. -/
def scan (rows : List Row) (position : Nat) (query : Query) (keystore : Option KeyStore) :
    Except String Served := do
  let fetched ← scanRows spelling entity rows { query with limit := query.limit + 1 }
  let next ← nextCursor entity codec query fetched
  let items ← (fetched.take query.limit).mapM (decryptRow spelling entity keystore)
  .ok ⟨⟨items, next⟩, position⟩

/-! ## A request -/

structure Request where
  filter : Filter
  orderBy : Option String
  cursor : Option String
  limit : Option Nat

structure Refused where
  status : Nat
  code : String
  message : String
  deriving DecidableEq

def Refused.invalid (message : String) : Refused := ⟨400, "invalid_input", message⟩

/-- Whether the index an ordering names can sort rows. -/
def checkOrdering (order : Order) : Except Refused Unit :=
  match (entity.indexes.find? fun index => some index.name == order.index).bind
    (orderingProblem entity) with
  | some why => .error (Refused.invalid why)
  | none => .ok ()

def checkIndex (filter : Filter) (order : Order) : Except Refused Unit :=
  match chooseIndex entity filter order with
  | none => .error ⟨400, "unindexed_filter", noIndexFor entity filter order⟩
  | some _ => .ok ()

/-- The ordering a request asks for, where its filter is one that is served in it. -/
def readOrder (filter : Filter) (orderBy : Option String) : Except Refused Order := do
  let order ← (orderBy.elim (.ok {}) (parseOrder entity)).mapError Refused.invalid
  checkOrdering entity order
  checkIndex entity filter order
  (checkFilter spelling entity filter).mapError Refused.invalid
  .ok order

/-- A cursor that was taken in this ordering, as it is now. -/
def readCursor (order : Order) (raw : String) : Except Refused Cursor :=
  match codec.decode raw with
  | none => .error (Refused.invalid "cursor is not valid")
  | some cursor =>
      let taken := order.token entity
      let width := (order.columns entity).length
      if cursor.ordering ≠ taken then
        .error (Refused.invalid (s!"this cursor was taken over `order_by={cursor.ordering}` and " ++
          s!"this request asks for `order_by={taken}`; start the new ordering from its first page"))
      else if cursor.values.length ≠ width then
        .error (Refused.invalid (s!"this cursor carries {cursor.values.length} value(s) and " ++
          s!"`order_by={taken}` now orders on {width}; the entity's declaration changed under " ++
          "it, so start from its first page"))
      else .ok cursor

def resumeAt (order : Order) : Option String → Except Refused (Option Cursor)
  | none => .ok none
  | some raw => (readCursor entity codec order raw).map some

def pageLimit (limit : Option Nat) : Nat := max 1 (min (limit.getD defaultLimit) maxLimit)

def readScan (rows : List Row) (position : Nat) (keystore : Option KeyStore) (request : Request) :
    Except Refused Served := do
  let order ← readOrder spelling entity request.filter request.orderBy
  let cursor ← resumeAt entity codec order request.cursor
  (scan spelling entity codec rows position
    ⟨request.filter, order, cursor, pageLimit request.limit⟩ keystore).mapError
      fun _ => ⟨500, "internal", "internal error"⟩

end Hekla.Reads
