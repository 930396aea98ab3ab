import Hekla.Reads.Tables

/-!
# What a row read asks for

A scan pins key parts and indexed folds to values, bounds at most one of either,
and is ordered by the key or by a fold that declares an index, with exactly what
leads that index pinned.  Anything else is refused with what would be served.  A
cursor holds the key of a row as texts, and its parts are read the way a filter's
are.
-/

namespace Hekla.Reads.Tables

open Hekla.Library Hekla.Host
open Hekla.Derived (FieldKind IndexDef)

/-- An ordering by a declared column. -/
structure Order where
  column : String
  descending : Bool
  deriving DecidableEq

/-- What a cursor records of an ordering. -/
def Order.token (order : Order) : String := (if order.descending then "-" else "") ++ order.column

/-- The last row of the page before: its key, and its value in the ordering. -/
structure After where
  value : Option String
  key : List String
  deriving DecidableEq

structure Scan where
  equals : List (String × String) := []
  range : Option (String × Range) := none
  values : List (String × String) := []
  valueRange : Option (String × Range) := none
  order : Option Order := none
  after : Option After := none
  limit : Nat := defaultLimit
  deriving DecidableEq

structure Cursor where
  table : String
  key : List String
  order : Option String
  value : Option String
  deriving DecidableEq

/-! ## Values -/

variable (spelling : Spelling) (isUuid : String → Bool)

def wrong (named what : String) : Refusal := .invalid s!"`{named}` must be {what}"

/-- A value checked against its type.  A timestamp is spelled again, a UUID is
kept as it is spelled, and a variant has to be one that is declared. -/
def boundMeta (field : FieldMeta) (named value : String) : Except Refusal String :=
  match field.kind.base with
  | .uuid => if isUuid value then .ok value else .error (wrong named "a UUID")
  | .timestamp =>
      ((spelling.timestamp value).bind fun micros =>
        (columnForm spelling field.kind (.int micros.toInt)).asStr).elim
          (.error (wrong named "an RFC 3339 timestamp with an offset")) .ok
  | .oneOf variants =>
      if variants.contains value then .ok value
      else .error (wrong named ("one of " ++ ", ".intercalate variants))
  | kind =>
      match coerceValue spelling kind value with
      | .ok _ => .ok value
      | .error why => .error (.invalid s!"`{named}`: {why}")

/-- The value of a key part. -/
def bound (table : TableDef) (part named value : String) : Except Refusal String :=
  match table.part part with
  | some field => boundMeta spelling isUuid field named value
  | none => .error (.invalid s!"`{part}` is no part of the key")

/-! ## Cursors -/

variable (codec : Codec Cursor)

def encodeCursor (table : String) (order : Option Order) (after : After) : String :=
  codec.encode ⟨table, after.key, order.map Order.token, after.value⟩

def bad : Refusal := .invalid "cursor is not valid"

/-- How a refusal spells an ordering. -/
def spelled (sel : Selection) (unordered : String) : Option String → String
  | none => unordered
  | some token =>
      match token.toList with
      | '-' :: column => "`order_by=-" ++ sel.foldOf (String.ofList column) ++ "`"
      | _ => "`order_by=" ++ sel.foldOf token ++ "`"

def takenUnder (sel : Selection) : Option String → String
  | none => "in key order"
  | some token => "under " ++ spelled sel "" (some token)

/-- Each part through the check a filter takes. -/
def cursorKey (table : TableDef) (texts : List String) : Except Refusal (List String) :=
  (table.key.zip texts).mapM fun part =>
    (bound spelling isUuid table part.1.1 part.1.1 part.2).mapError fun _ => bad

def cursorValue (table : TableDef) : Option Order → Option String →
    Except Refusal (Option String)
  | none, none => .ok none
  | some order, some value =>
      match table.column order.column with
      | none => .error bad
      | some column =>
          ((coerceValue spelling column.field.kind value).mapError fun _ => bad).map fun _ =>
            some value
  | _, _ => .error bad

def decodeCursor (sel : Selection) (raw : String) (order : Option Order) : Except Refusal After :=
  if sel.main.key.isEmpty then .error bad
  else
    match codec.decode raw with
    | none => .error bad
    | some cursor =>
        if cursor.table ≠ sel.main.name ∨ cursor.key.length ≠ sel.main.key.length then
          let first := sel.first
          .error (.invalid s!"this cursor was taken over folds keyed otherwise than `{first}`")
        else if cursor.order ≠ order.map Order.token then
          let taken := takenUnder sel cursor.order
          let asked := spelled sel "key order" (order.map Order.token)
          .error (.invalid s!"this cursor was taken {taken} and this request asks for {asked}")
        else do
          let key ← cursorKey spelling isUuid sel.main cursor.key
          let value ← cursorValue spelling sel.main order cursor.value
          .ok ⟨value, key⟩

/-! ## Ranges -/

def rangeOperators : List (String × Bool × Bound) :=
  [("gte", true, .inclusive), ("gt", true, .exclusive), ("lte", false, .inclusive),
    ("lt", false, .exclusive)]

/-- A name split at its last dot. -/
def rsplitDot (name : String) : Option (String × String) :=
  match name.toList.reverse.dropWhile (· != '.') with
  | [] => none
  | _ :: front =>
      some (String.ofList front.reverse,
        String.ofList (name.toList.reverse.takeWhile (· != '.')).reverse)

/-- What a range parameter bounds, which end, and how. -/
def rangeOp (name : String) : Except Refusal (String × Bool × Bound) :=
  match rsplitDot name with
  | none => .error (.invalid s!"`{name}` is not a filter")
  | some (subject, op) =>
      match rangeOperators.find? fun known => known.1 == op with
      | some (_, lower, kind) => .ok (subject, lower, kind)
      | none =>
          let words := ", ".intercalate (rangeOperators.map Prod.fst)
          .error (.invalid (s!"`{name}` is not a filter: a range is `{subject}.` followed by one of " ++
            words))

/-- Refuse a range over a value with no order. -/
def orderable (field : FieldMeta) (named : String) : Except Refusal Unit :=
  if field.kind.base.isComparable then .ok ()
  else
    let kind := field.kind.describe
    .error (.invalid (s!"`{named}` is {kind}, which has no order a range could use; filter it for " ++
      "equality instead"))

/-- Set one end of a range, refusing a second bound at it. -/
def setEnd (range : Range) (named : String) (lower : Bool) (end_ : Bound × String) :
    Except Refusal Range :=
  if lower then
    if range.lower.isSome then .error (.invalid s!"`{named}` has two lower bounds")
    else .ok { range with lower := some end_ }
  else
    if range.upper.isSome then .error (.invalid s!"`{named}` has two upper bounds")
    else .ok { range with upper := some end_ }

/-! ## Filters -/

def startsUpper (name : String) : Bool :=
  match name.toList with
  | first :: _ => first.isUpper
  | [] => false

/-- Whether a declared ordering is by a column or leads with it. -/
def indexed (table : TableDef) (column : String) : Bool :=
  table.sorts.any fun sort => sort.column == column || sort.values.contains column

/-- The column of the fold a parameter names, when it names one. -/
def filteredFold (sel : Selection) (name : String) : Except Refusal (Option ColumnDef) :=
  if startsUpper name then
    match sel.main.columns.find? fun column => column.fold == name with
    | some column =>
        if !column.served then
          .error ⟨"sealed", s!"`{name}` is sealed, so no read filters on it: a filter would learn its " ++
            "value one guess at a time, and a sealed fold cannot be indexed"⟩
        else if indexed sel.main column.name then .ok (some column)
        else .error (.unindexed (s!"`{name}` is not indexed, so filtering on its value would be a " ++
          "table scan; declare `@index` on it, or on a fold that leads with it"))
    | none =>
        if (sel.side.bind fun side => side.columns.find? fun column => column.fold == name).isSome then
          .error (.unindexed (s!"`{name}` is a collection, which no index orders, so a scan cannot " ++
            "filter on it"))
        else
          let first := sel.first
          .error (.invalid (s!"`{name}` is not a fold of the rows `{first}` is kept in, so a scan of " ++
            "them cannot filter on it"))
  else .ok none

def notAParam (sel : Selection) (param : String) : Refusal :=
  let first := sel.first
  let params := ", ".intercalate sel.params
  .invalid (s!"`{param}` is not a parameter of `{first}`, which takes ({params}); a read names the " ++
    "key in the first listed fold's parameters")

/-- The key part a parameter names, or why it names none. -/
def paramPart (sel : Selection) (param : String) : Except Refusal String :=
  (sel.part param).elim (.error (notAParam sel param)) .ok

/-- One end of a range on a fold's own value. -/
def valueBound (scan : Scan) (column : ColumnDef) (name value : String) : Except Refusal Scan := do
  let (fold, lower, kind) ← rangeOp name
  orderable column.field fold
  let (given, range) := scan.valueRange.getD (column.name, {})
  if given ≠ column.name then
    .error (.invalid "a scan bounds one fold's value, and another is already bounded")
  else do
    let text ← boundMeta spelling isUuid column.field fold value
    let range ← setEnd range fold lower (kind, text)
    .ok { scan with valueRange := some (given, range) }

/-- Refuse a range over a key part with no order. -/
def orderablePart (sel : Selection) (part param : String) : Except Refusal Unit :=
  (sel.main.part part).elim (.ok ()) fun field => orderable field param

/-- One end of a range on a key part. -/
def rangedBound (sel : Selection) (scan : Scan) (name value : String) : Except Refusal Scan := do
  let (param, lower, kind) ← rangeOp name
  let part ← paramPart sel param
  orderablePart sel part param
  let (given, range) := scan.range.getD (part, {})
  if given ≠ part then
    let named := sel.spoken given
    .error (.invalid s!"a scan bounds one parameter, and `{named}` is already bounded")
  else do
    let text ← bound spelling isUuid sel.main part param value
    let range ← setEnd range param lower (kind, text)
    .ok { scan with range := some (given, range) }

/-- A fold pinned to a value. -/
def pinValue (scan : Scan) (column : ColumnDef) (param value : String) : Except Refusal Scan :=
  if scan.values.any fun given => given.1 == column.name then
    .error (.invalid s!"`{param}` is given twice")
  else
    (boundMeta spelling isUuid column.field param value).map fun text =>
      { scan with values := scan.values ++ [(column.name, text)] }

/-- A key part pinned to a value. -/
def pinPart (sel : Selection) (scan : Scan) (param value : String) : Except Refusal Scan := do
  let part ← paramPart sel param
  if scan.equals.any fun given => given.1 == part then
    .error (.invalid s!"`{param}` is given twice")
  else
    (bound spelling isUuid sel.main part param value).map fun text =>
      { scan with equals := scan.equals ++ [(part, text)] }

/-! ## What serves a filter -/

/-- The column orders a filter can lead: the key, then every index. -/
def leads (table : TableDef) : List (List String) :=
  table.key.map Prod.fst :: table.indexes.map IndexDef.columns

/-- Whether the pinned parts are a leading run of the key or an index, in any
order, and a ranged part the column right after them. -/
def servable (table : TableDef) (equals : List (String × String)) (ranged : Option String) : Bool :=
  (leads table).any fun columns =>
    equals.length ≤ columns.length &&
    (columns.take equals.length).all ((equals.map Prod.fst).contains ·) &&
    ranged.all fun part => columns[equals.length]? == some part

/-- The sets of parameters of a lead that would serve, shortest first. -/
def servingSets (sel : Selection) (ranged : Bool) (parts : List String) :
    List (List String × Option String) :=
  let lengths := (List.range (parts.length + 1)).filter fun len => ranged || 1 ≤ len
  lengths.filterMap fun len =>
    let set := ((parts.take len).map sel.spoken).insertionSort (· ≤ ·)
    if ranged then (parts[len]?).map fun next => (set, some (sel.spoken next)) else some (set, none)

def servingWay : List String × Option String → String
  | (set, some next) => "`" ++ next ++ "` with (" ++ ", ".intercalate set ++ ") pinned"
  | (set, none) => "(" ++ ", ".intercalate set ++ ")"

/-- Why a filter is refused, with the sets that would serve. -/
def unindexed (sel : Selection) (equals : List (String × String)) (ranged : Option String) : String :=
  let keyParts := sel.main.key.map Prod.fst
  let sets := (leads sel.main).flatMap fun columns =>
    servingSets sel ranged.isSome (columns.takeWhile (keyParts.contains ·))
  let distinct := sets.foldl (fun kept set => if kept.contains set then kept else kept ++ [set]) []
  let asked := sel.spokenList (equals.map Prod.fst)
  let first := sel.first
  let ways := ", ".intercalate (distinct.map servingWay)
  match ranged with
  | some part =>
      let named := sel.spoken part
      s!"a range on `{named}` with ({asked}) pinned is not one index seek for folds keyed like " ++
        s!"`{first}`; one of these is: {ways}"
  | none =>
      s!"pinning ({asked}) is not one index seek for folds keyed like `{first}`; pin one of these " ++
        s!"sets instead: {ways}"

/-! ## Orderings -/

def samePins (lead pinned : List String) : Bool :=
  lead.length == pinned.length && lead.all (pinned.contains ·)

/-- Every sibling pinned, and the fold itself pinned too or walked from there. -/
def covers (filtered : List String) (sort : SortDef) : Bool :=
  sort.values.length + (if filtered.contains sort.column then 1 else 0) == filtered.length &&
    sort.values.all (filtered.contains ·)

/-- The ordering that a value filter walks where none is asked for. -/
def impliedOrder (sel : Selection) (scan : Scan) : Except Refusal (Option String) :=
  match scan.valueRange with
  | some (column, _) => .ok (some (sel.foldOf column))
  | none =>
      match scan.values.map Prod.fst with
      | [] => .ok none
      | filtered@(first :: _) =>
          let pinned := scan.equals.map Prod.fst
          let fitting := ((sel.main.sorts.filter fun sort =>
            covers filtered sort && samePins sort.lead pinned).map SortDef.column).eraseReps
          match fitting with
          | [column] => .ok (some (sel.foldOf column))
          | [] =>
              let nearest := ((sel.main.sorts.find? (covers filtered)).map SortDef.column).getD first
              .ok (some (sel.foldOf nearest))
          | _ =>
              let asked := " and ".intercalate (filtered.map fun column =>
                "`" ++ sel.foldOf column ++ "`")
              .error (.invalid (s!"filtering on {asked} walks more than one index; add `order_by` " ++
                "naming the fold to order by"))

def spelledSort (sel : Selection) (sort : SortDef) : String :=
  let fold := sel.foldOf sort.column
  let pins := sort.lead.map sel.spoken ++ sort.values.map sel.foldOf
  if pins.isEmpty then "`" ++ fold ++ "`"
  else "`" ++ fold ++ "` with (" ++ ", ".intercalate pins ++ ") pinned"

/-- Whether a declared index is walked by what is pinned and bounded. -/
def fits (scan : Scan) (sort : SortDef) : Bool :=
  let valued := scan.values.map Prod.fst
  samePins sort.lead (scan.equals.map Prod.fst) &&
    sort.values.all (valued.contains ·) &&
    valued.all (fun column => column == sort.column || sort.values.contains column) &&
    scan.valueRange.all fun ranged => ranged.1 == sort.column && !valued.contains sort.column

def noOrder (sel : Selection) (fold : String) : Refusal :=
  let first := sel.first
  let known := ", ".intercalate (sel.main.sorts.map (spelledSort sel))
  .invalid (if sel.main.sorts.isEmpty then
      s!"`{fold}` does not order rows keyed like `{first}`, and nothing does; a fold orders its " ++
        "rows with `@index`"
    else
      s!"`{fold}` does not order rows keyed like `{first}`; they order by {known}, each optionally " ++
        "prefixed with `-` to reverse it")

def notOneWalk (sel : Selection) (scan : Scan) (fold : String) (filtering : Bool)
    (declared : List SortDef) : Refusal :=
  let verb := if filtering then "filtering on" else "ordering by"
  let siblings := (scan.values.map Prod.fst).filter fun column => sel.foldOf column != fold
  let asked := ", ".intercalate (scan.equals.map (sel.spoken ·.1) ++ siblings.map sel.foldOf)
  let also := if scan.range.isSome then " and a range" else ""
  let ways := ", ".intercalate (declared.map (spelledSort sel))
  .unindexed (s!"{verb} `{fold}` with ({asked}) pinned{also} is not one index walk: {ways}. Pin " ++
    "exactly what its `@index` leads with, and no range on a parameter.")

/-- Whether a name is reversed, and the name without its dash. -/
def splitDash (raw : String) : Bool × String :=
  match raw.toList with
  | '-' :: rest => (true, String.ofList rest)
  | _ => (false, raw)

/-- An ordering against what the folds declare. -/
def ordered (sel : Selection) (scan : Scan) (raw : String) (filtering : Bool) :
    Except Refusal Order :=
  let fold := (splitDash raw).2
  let declared := sel.main.sorts.filter fun sort => sel.foldOf sort.column == fold
  match declared with
  | [] => .error (noOrder sel fold)
  | sort :: _ =>
      if scan.range.isSome || !declared.any (fits scan) then
        .error (notOneWalk sel scan fold filtering declared)
      else .ok ⟨sort.column, (splitDash raw).1⟩

/-! ## The request -/

/-- `str::parse` at a machine word. -/
def parseUsize (raw : String) : Option Nat :=
  (match raw.toList with
    | '+' :: digits => parseDigits digits
    | digits => parseDigits digits).filter (· < 2 ^ 64)

def readLimit (raw : String) : Except Refusal Nat :=
  match (parseUsize raw).filter (0 < ·) with
  | some limit => .ok (min limit maxLimit)
  | none => .error (.invalid "limit must be a positive integer")

/-- Parameters that a wait reads. -/
def waitParams : List String := ["after", "timeout_ms"]

/-- What has been read of a query string. -/
structure Reading where
  scan : Scan := {}
  cursor : Option String := none
  orderBy : Option String := none

def readFilter (sel : Selection) (scan : Scan) (name value : String) : Except Refusal Scan :=
  if name.toList.contains '.' then do
    let column ← filteredFold sel ((rsplitDot name).elim name Prod.fst)
    match column with
    | some column => valueBound spelling isUuid scan column name value
    | none => rangedBound spelling isUuid sel scan name value
  else do
    let column ← filteredFold sel name
    match column with
    | some column => pinValue spelling isUuid scan column name value
    | none => pinPart spelling isUuid sel scan name value

/-- One parameter.  Of a control that is given twice the last one counts. -/
def readParam (sel : Selection) (reading : Reading) (param : String × String) :
    Except Refusal Reading :=
  if param.1 = "limit" then
    (readLimit param.2).map fun limit =>
      { reading with scan := { reading.scan with limit := limit } }
  else if param.1 = "cursor" then .ok { reading with cursor := some param.2 }
  else if param.1 = "order_by" then .ok { reading with orderBy := some param.2 }
  else if waitParams.contains param.1 then .ok reading
  else
    (readFilter spelling isUuid sel reading.scan param.1 param.2).map fun scan =>
      { reading with scan := scan }

/-- A fold's value is bounded where it is not pinned and where an index orders by it. -/
def checkValueRange (sel : Selection) (scan : Scan) : Except Refusal Unit :=
  match scan.valueRange with
  | none => .ok ()
  | some (column, _) =>
      let fold := sel.foldOf column
      if scan.values.any fun given => given.1 == column then
        .error (.invalid s!"`{fold}` is pinned and bounded at once; filter it one way")
      else if sel.main.sorts.any fun sort => sort.column == column then .ok ()
      else
        .error (.invalid (s!"`{fold}` only leads an index beside another fold, so it can be pinned " ++
          "to a value but not bounded; a range goes on the fold its `@index` orders by"))

def checkRange (sel : Selection) (scan : Scan) : Except Refusal Unit :=
  match scan.range with
  | none => .ok ()
  | some (part, _) =>
      let param := sel.spoken part
      if scan.equals.any fun given => given.1 == part then
        .error (.invalid s!"`{param}` is pinned and bounded at once; filter it one way")
      else .ok ()

def checkServable (sel : Selection) (scan : Scan) : Except Refusal Unit :=
  let ranged := scan.range.map Prod.fst
  if servable sel.main scan.equals ranged then .ok ()
  else .error (.unindexed (unindexed sel scan.equals ranged))

def orderOf (sel : Selection) (scan : Scan) : Option String → Except Refusal (Option Order)
  | some raw => (ordered sel scan raw false).map some
  | none => do
      let implied ← impliedOrder sel scan
      match implied with
      | some raw => (ordered sel scan raw true).map some
      | none => .ok none

def afterOf (sel : Selection) (order : Option Order) : Option String → Except Refusal (Option After)
  | none => .ok none
  | some raw => (decodeCursor spelling isUuid codec sel raw order).map some

/-- The ordering of what was asked for, where an index serves it. -/
def settle (sel : Selection) (reading : Reading) : Except Refusal (Option Order) := do
  checkValueRange sel reading.scan
  checkRange sel reading.scan
  checkServable sel reading.scan
  orderOf sel reading.scan reading.orderBy

/-- Read a scan off a query string, or say why it is not one. -/
def parseScan (sel : Selection) (params : List (String × String)) : Except Refusal Scan := do
  let reading ← params.foldlM (readParam spelling isUuid sel) {}
  let order ← settle sel reading
  let after ← afterOf spelling isUuid codec sel order reading.cursor
  .ok { reading.scan with order := order, after := after }

end Hekla.Reads.Tables
