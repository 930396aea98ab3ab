import Hekla.Language.ColumnWriter
import Hekla.Library.Changes
import Hekla.Library.Passes

/-!
# The history of a row

A fold's history is read off the log: the records that fire its arms for a key are
folded again, and those that change its value are its history.  A request names
several folds of a key, and is answered with a page of the records that changed any
of them, newest first, each with what it changed.
-/

namespace Hekla.Language.History

open Hekla.Library Hekla.Host Hekla.Reads
open Hekla.Derived (FieldKind)
open Hekla.Reads.Tables (SealedCell rendered parseUsize readLimit)

/-- The most records that one request folds, across every column it asks for. -/
def maxFolded : Nat := 100000

/-! ## What part of a history is asked for -/

/-- Changes below a position, at or above another, and how many a page may hold. -/
structure Window where
  before : Option Nat := none
  since : Option Nat := none
  limit : Nat := defaultLimit
  deriving DecidableEq

/-- A position of the log, off a query string. -/
def parsePosition (name value : String) : Except Refusal Nat :=
  (parseUsize value).elim
    (.error (.invalid s!"`{name}` must be a log position, a non-negative integer")) .ok

/-- One parameter, which is left over where it is none of a window's. -/
def windowParam (state : Window × List (String × String)) (param : String × String) :
    Except Refusal (Window × List (String × String)) :=
  if param.1 = "limit" then
    (readLimit param.2).map fun limit => ({ state.1 with limit := limit }, state.2)
  else if param.1 = "before" then
    (parsePosition param.1 param.2).map fun before => ({ state.1 with before := some before }, state.2)
  else if param.1 = "since" then
    (parsePosition param.1 param.2).map fun since => ({ state.1 with since := some since }, state.2)
  else .ok (state.1, state.2 ++ [param])

def parseWindow (params : List (String × String)) : Except Refusal (Window × List (String × String)) :=
  params.foldlM windowParam ({}, [])

/-! ## The columns of a history -/

variable {spelling : Spelling} {language : Heklang}

/-- A fold's column with the fold's own names for the parts of the key, and the fold
with a range arm that it is or reads, if there is one. -/
structure HistoryColumn (spelling : Spelling) (language : Heklang) extends FoldColumn spelling language where
  fold : String
  args : List String
  rangedThrough : Option String := none

/-- How a fold without a history is named. -/
def withoutHistory (column : HistoryColumn spelling language) : String :=
  let fold := column.fold
  match column.rangedThrough with
  | some ranged => if ranged = fold then s!"`{fold}`" else s!"`{fold}` (through `{ranged}`)"
  | none => s!"`{fold}`"

def noHistory (columns : List (HistoryColumn spelling language)) : Refusal where
  code := "no_history"
  message := ", ".intercalate (columns.map withoutHistory) ++
    " has no history: a fold it depends on has an arm that leaves a key " ++
    "part open, so a key made after such a record never saw it, and a history read off " ++
    "the log would report a change the stored column never took"

/-- Refuse a read of any fold that has no history. -/
def check (columns : List (HistoryColumn spelling language)) : Except Refusal Unit :=
  match columns.filter fun column => column.rangedThrough.isSome with
  | [] => .ok ()
  | without => .error (noHistory without)

/-- The values that a key part is read as. -/
structure Scalars (language : Heklang) where
  int : Int64 → language.Plain
  flag : Bool → language.Plain
  uuid : String → language.Plain
  timestamp : Int64 → language.Plain
  str : String → language.Plain

/-- One stored key part back as the value a fold takes as its argument. -/
def keyValue (scalars : Scalars language) (kind : FieldKind) (text : String) :
    Except String (Value language.Plain) :=
  match kind.base with
  | .i64 => (parseI64 text).elim (.error s!"`{text}` as Int") fun number => .ok (.plain (scalars.int number))
  | .bool => .ok (.plain (scalars.flag (text == "1" || text == "true")))
  | .uuid => .ok (.plain (scalars.uuid text))
  | .timestamp =>
      (spelling.timestamp text).elim (.error s!"`{text}` as Timestamp") fun micros =>
        .ok (.plain (scalars.timestamp micros))
  | _ => .ok (.plain (scalars.str text))

/-! ## Reading -/

/-- A record of the log: the path of its event, and when it was. -/
structure Record where
  path : List String
  instant : Int64

def eventType (path : List String) : String := ".".intercalate path

/-- The positions that fold a key, with the value after each. -/
abbrev Visits (language : Heklang) := List (Nat × Value language.Plain)

/-- What a read needs of a deployment: the log and what the interpreter makes of it, and
the keys there are.  A fold at its arguments visits the records that fire its arms,
with its value after each. -/
structure Source (language : Heklang) where
  log : Nat → Record
  visits : String → List (String × Value language.Plain) → Except String (Visits language)
  same : Value language.Plain → Value language.Plain → Bool
  scalars : Scalars language
  keystore : Option KeyStore

/-- `fold_steps`: the records below a head. -/
def Source.foldSteps (source : Source language) (fold : String)
    (args : List (String × Value language.Plain)) (head : Nat) : Except String (Visits language) :=
  (source.visits fold args).map fun visits => visits.filter fun visit => visit.1 < head

inductive Unread where
  | tooLong
  | internal (why : String)

/-- One change, before it is rendered. -/
structure Step (language : Heklang) where
  position : Nat
  eventType : String
  instant : Int64
  column : Nat
  before : Value language.Plain
  after : Value language.Plain

variable (source : Source language) (table : String)

/-- `cell_of`: a value as the cell its column holds. -/
def cellOf (table : String) (column : FoldColumn spelling language) (value : Value language.Plain) :
    Except String Cell :=
  if column.field.sealedUnder.isSome then
    match value.peeled with
    | .none => .ok .null
    | .sealed field subject id content =>
        .ok (.text (spelling.jsonText (.obj [("subject", .str subject), ("id", .str id),
          ("field", .str field), ("sealed", .str content)])))
    | _ => .error s!"`{table}`.`{column.name}` is sealed and was handed plaintext to store"
  else Language.cellOf spelling language column.field.kind value

/-- A value as its column serves it. -/
def render (column : FoldColumn spelling language) (value : Value language.Plain)
    (keystore : Option KeyStore) : Except String Json := do
  let cell ← cellOf table column value
  rendered spelling column.field cell keystore

/-- What has been folded of a column: how many records, in all columns, what it holds, and
the changes so far. -/
structure Visiting (language : Heklang) where
  folded : Nat
  held : Value language.Plain
  steps : List (Step language)

/-- A record that changes what a column holds. -/
def moved (index : Nat) (state : Visiting language) (visit : Nat × Value language.Plain) :
    Visiting language where
  folded := state.folded + 1
  held := visit.2
  steps := state.steps ++ [⟨visit.1 + 1, eventType (source.log visit.1).path, (source.log visit.1).instant,
    index, state.held, visit.2⟩]

/-- Whether a sealed column is served as it was. -/
def unmoved (column : FoldColumn spelling language) (held value : Value language.Plain) :
    Except String Bool := do
  let new ← render table column value source.keystore
  let old ← render table column held source.keystore
  .ok (new == old)

/-- One record of a fold.  A sealed column is compared as it is served before it counts as
moved. -/
def visitRecord (column : HistoryColumn spelling language) (index : Nat) (state : Visiting language)
    (visit : Nat × Value language.Plain) : Except Unread (Visiting language) :=
  let fold := column.fold
  if maxFolded < state.folded + 1 then .error .tooLong
  else if source.same visit.2 state.held then .ok { state with folded := state.folded + 1 }
  else if column.field.sealedUnder.isSome then
    match unmoved source table column.toFoldColumn state.held visit.2 with
    | .error why => .error (.internal s!"reading the history of `{fold}`: {why}")
    | .ok true => .ok { state with folded := state.folded + 1, held := visit.2 }
    | .ok false => .ok (moved source index state visit)
  else .ok (moved source index state visit)

/-- The arguments of a fold at a key, in the fold's own names. -/
def argsOf (parts : List (String × Reads.FieldMeta)) (column : HistoryColumn spelling language)
    (key : FoldKey) : Except String (List (String × Value language.Plain)) :=
  ((column.args.zip key).zip parts).mapM fun part =>
    (@keyValue spelling language source.scalars part.2.2.kind part.1.2).map fun value => (part.1.1, value)

/-- The changes of one column, after those of the columns before it. -/
def foldColumn (parts : List (String × Reads.FieldMeta)) (key : FoldKey) (head : Nat)
    (state : Nat × List (Step language)) (column : HistoryColumn spelling language × Nat) :
    Except Unread (Nat × List (Step language)) := do
  let fold := column.1.fold
  let args ← (argsOf source parts column.1 key).mapError .internal
  let visits ← (source.foldSteps fold args head).mapError fun why =>
    .internal s!"reading the history of `{fold}`: {why}"
  let folded ← visits.foldlM (visitRecord source table column.1 column.2) ⟨state.1, column.1.seed, state.2⟩
  .ok (folded.folded, folded.steps)

/-! ## A page -/

def Step.place (step : Step language) : Nat × Nat := (step.position, step.column)

/-- Newest first, and the columns of a record in the order they are asked for. -/
def newer (one other : Nat × Nat) : Prop := other.1 < one.1 ∨ one.1 = other.1 ∧ one.2 < other.2

instance : DecidableRel newer := fun one other => by
  unfold newer
  exact inferInstance

def Window.admits (window : Window) (step : Step language) : Bool :=
  (window.before.all fun before => step.position < before) &&
    window.since.all fun since => since ≤ step.position

/-- What a step changed, beside what else its record changed. -/
def changedBy (columns : List (HistoryColumn spelling language)) (changed : Json) (step : Step language) :
    Except String Json :=
  match columns[step.column]? with
  | none => .error "index out of bounds"
  | some column => do
      let before ← render table column.toFoldColumn step.before source.keystore
      let after ← render table column.toFoldColumn step.after source.keystore
      .ok (insertMember column.fold (.obj [("before", before), ("after", after)]) changed)

/-- One record that changed something. -/
def itemOf (columns : List (HistoryColumn spelling language)) : List (Step language) → Except String Json
  | [] => .ok .null
  | first :: rest => do
      let changed ← (first :: rest).foldlM (changedBy source table columns) (.obj [])
      .ok (.obj [("position", .int first.position),
        ("event", .obj [("type", .str first.eventType),
          ("at", (spelling.rfc3339 first.instant).elim .null .str)]),
        ("changed", changed)])

def asU64 : Json → Option Nat
  | .int number => if 0 ≤ number ∧ number < 2 ^ 64 then some number.toNat else none
  | _ => none

/-- A page, and the length of the log that it was read to. -/
structure HistoryPage where
  page : Page Json Nat
  head : Nat

/-- The history of a key's columns, one page of it. -/
def read (parts : List (String × Reads.FieldMeta)) (columns : List (HistoryColumn spelling language))
    (key : FoldKey) (window : Window) (head : Nat) : Except Unread HistoryPage := do
  let folded ← columns.zipIdx.foldlM (foldColumn source table parts key head) (0, [])
  let groups := blocks Step.position ((ordered newer Step.place folded.2).filter window.admits)
  let items ← ((groups.take window.limit).mapM (itemOf source table columns)).mapError .internal
  let next := if window.limit < groups.length then
      items.getLast?.bind fun item => (item.get "position").bind asU64
    else none
  .ok ⟨⟨items, next⟩, head⟩

end Hekla.Language.History
