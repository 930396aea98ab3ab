import Hekla.Folds.Tables
import Hekla.Library.OrderedSet
import Hekla.Library.Table

/-!
# Where a record's arms land

The store holds the rows of every table, each with a cell a column.  A writer
holds the cells a batch has set and not yet written, reads them before the
store, and writes each row once when it flushes.  While a backfill replays the
log, only the columns being rebuilt reach the store: the others are kept in an
overlay, and a range sees the keys the replay has minted and not the rows.
-/

namespace Hekla.Folds

open Library

/-- What the layout implies of each column, and how its cells are stored: a cell
reads back as the value written, and an untouched one as the seed. -/
structure Layout (Value Cell : Type) where
  columns : List Column
  arity : String → Nat
  seed : Column → Value
  default : Column → Cell
  encode : Column → Value → Except Fault Cell
  decode : Column → Cell → Except Fault (Option Value)
  written : ∀ {column value cell}, encode column value = .ok cell →
    (decode column cell).map (fun found => found.getD (seed column)) = .ok value
  untouched : ∀ column,
    (decode column (default column)).map (fun found => found.getD (seed column)) =
      .ok (seed column)

variable {Value Cell : Type}

/-- The derived store.  A cell of a row that does not exist is its default, which
is what the row comes into being with. -/
@[ext]
structure Store (layout : Layout Value Cell) where
  keys : Held → OrderedSet Key
  cells : Column → Key → Cell
  absent : ∀ column key, key ∉ keys column.held → cells column key = layout.default column
  checkpoint : Nat
  /-- How far each recorded column has been folded. -/
  builtTo : Column → Option Nat

/-! ## Statements -/

namespace Store

variable {layout : Layout Value Cell} (store : Store layout)

/-- `INSERT … ON CONFLICT DO NOTHING`. -/
def ensureRow (table : Held) (key : Key) : Store layout :=
  { store with
    keys := Function.update store.keys table ((store.keys table).insert key)
    absent := by
      intro column other absent
      refine store.absent column other ?_
      intro there
      refine absent ?_
      by_cases here : column.held = table
      · rw [here, Function.update_self, OrderedSet.mem_insert]
        exact .inr (here ▸ there)
      · rw [Function.update_of_ne here]
        exact there }

/-- `INSERT … ON CONFLICT DO UPDATE SET` the named columns. -/
def writeRow (table : Held) (key : Key) (cells : Table String Cell) : Store layout :=
  { store.ensureRow table key with
    cells := fun column other =>
      if column.held = table ∧ other = key then
        (cells.get column.name).getD (store.cells column other)
      else store.cells column other
    absent := by
      intro column other absent
      rw [if_neg]
      · exact (store.ensureRow table key).absent column other absent
      · rintro ⟨rfl, rfl⟩
        exact absent (by simp [ensureRow]) }

/-- `UPDATE` one column of every row to its default. -/
def resetColumn (column : Column) : Store layout :=
  { store with
    cells := fun other key =>
      if other = column then layout.default column else store.cells other key
    absent := by
      intro other key absent
      split
      · next here => rw [here]
      · exact store.absent other key absent }

/-- `UPDATE` the position of one recorded column. -/
def markBuilt (column : Column) (head : Nat) : Store layout :=
  { store with
    builtTo := fun other =>
      if other = column then (store.builtTo other).map fun _ => head else store.builtTo other }

/-- A row carries every pinned part. -/
def matching (parts : List (Option String)) (row : Key) : Bool :=
  (parts.zip row).all fun pair => pair.1.all fun part => part == pair.2

/-- The keys of a table that carry the pinned parts; the one key of a keyless table. -/
def keysPinned (table : Held) (parts : List (Option String)) : List Key :=
  if layout.arity table.source = 0 then [[]]
  else (store.keys table).items.filter (matching parts)

end Store

/-! ## Writing -/

/-- The cells of the rows a batch has set. -/
abbrev Pending (Cell : Type) := Table (Held × Key) (Table String Cell)

/-- What a backfill replays the log under. -/
structure Replay (Value : Type) where
  /-- The columns being rebuilt. -/
  only : List Column
  /-- Every key some arm has written so far in the replay. -/
  minted : String → OrderedSet Key := fun _ => ∅
  /-- The values of the other columns the replay runs, as of the record replayed. -/
  overlay : Column → Key → Option Value := fun _ _ => none

structure Writer (layout : Layout Value Cell) where
  store : Store layout
  /-- Main-table keys this batch has made sure of. -/
  ensured : List (String × Key) := []
  replay : Option (Replay Value) := none
  pending : Pending Cell := ∅

/-- The parts a range pins, in key order. -/
def partsOf (layout : Layout Value Cell) (source : String) (pinned : List (Nat × String)) :
    Except Fault (List (Option String)) :=
  pinned.foldlM (fun parts pin =>
    if pin.1 < parts.length then .ok (parts.set pin.1 (some pin.2))
    else .error (.noKeyPart source pin.1)) (List.replicate (layout.arity source) none)

/-- The minted keys carrying every pinned part; a leading run of parts is sought. -/
def mintedMatching (minted : OrderedSet Key) (parts : List (Option String)) : List Key :=
  let stem := (parts.takeWhile Option.isSome).filterMap id
  if stem.isEmpty then minted.items.filter (Store.matching parts)
  else (minted.seek stem fun row => stem.isPrefixOf row).filter (Store.matching parts)

/-- Whether the layout has the column, and the key the parts of its table. -/
def checked (layout : Layout Value Cell) (column : Column) (key : Key) : Except Fault Unit :=
  if layout.columns.contains column then
    if key.length = layout.arity column.source then .ok ()
    else .error (.keyLength column.held)
  else .error (.noColumn column.source column.name)

/-- The main table of a signature, if the layout has one. -/
def checkedMain (layout : Layout Value Cell) (source : String) : Except Fault Unit :=
  if layout.columns.any fun column => column.source == source then .ok ()
  else .error (.noTable source)

namespace Writer

variable {layout : Layout Value Cell}

/-- Write every pending row, one statement each, and empty the buffer. -/
def flush (writer : Writer layout) : Writer layout :=
  { writer with
    store := writer.pending.entries.foldl (fun store entry =>
      store.writeRow entry.1.1 entry.1.2 entry.2) writer.store
    pending := ∅ }

/-- One pending cell. -/
def pendingCell (writer : Writer layout) (column : Column) (key : Key) : Option Cell :=
  (writer.pending.get (column.held, key)).bind fun row => row.get column.name

/-- A cell as stored and not yet stored. -/
def storedValue (writer : Writer layout) (column : Column) (key : Key) :
    Except Fault (Option Value) :=
  match writer.pendingCell column key with
  | some cell => layout.decode column cell
  | none =>
      if key ∈ writer.store.keys column.held then
        layout.decode column (writer.store.cells column key)
      else .ok none

def value (writer : Writer layout) (column : Column) (key : Key) :
    Except Fault (Option Value) := do
  checked layout column key
  match writer.replay with
  | none => writer.storedValue column key
  | some replay =>
      if replay.only.contains column then writer.storedValue column key
      else .ok (replay.overlay column key)

/-- The replay once an arm has set a column at a key. -/
def Replay.minting (replay : Replay Value) (column : Column) (key : Key) : Replay Value :=
  { replay with
    minted := Function.update replay.minted column.source
      ((replay.minted column.source).insert key) }

/-- Make sure of the key in the main table when the write lands in the side table. -/
def ensure (writer : Writer layout) (column : Column) (key : Key) : Writer layout :=
  if column.collection && !writer.ensured.contains (column.source, key) then
    { writer with
      store := writer.store.ensureRow (mainOf column.source) key
      ensured := (column.source, key) :: writer.ensured }
  else writer

/-- Hold a cell until the next flush, which comes when it is due. -/
def hold (due : Pending Cell → Bool) (writer : Writer layout) (column : Column) (key : Key)
    (cell : Cell) : Writer layout :=
  let row := (writer.pending.get (column.held, key)).getD ∅
  let held := { writer with
    pending := writer.pending.set (column.held, key) (row.set column.name cell) }
  if due held.pending then held.flush else held

def put (due : Pending Cell → Bool) (writer : Writer layout) (column : Column) (key : Key)
    (value : Value) : Except Fault (Writer layout) := do
  let cell ← layout.encode column value
  .ok ((writer.ensure column key).hold due column key cell)

def set (due : Pending Cell → Bool) (writer : Writer layout) (column : Column) (key : Key)
    (value : Value) : Except Fault (Writer layout) := do
  checked layout column key
  match writer.replay with
  | none => writer.put due column key value
  | some replay =>
      let minted := Replay.minting replay column key
      if replay.only.contains column then
        ({ writer with replay := some minted } : Writer layout).put due column key value
      else .ok { writer with
        replay := some { minted with
          overlay := fun other place =>
            if other = column ∧ place = key then some value else minted.overlay other place } }

/-- The keys of the rows a table has pending. -/
def pendingKeys (writer : Writer layout) (table : Held) : OrderedSet Key :=
  .ofList ((writer.pending.keys.filter fun place => place.1 == table).map Prod.snd)

def keys (writer : Writer layout) (source : String) (pinned : List (Nat × String)) :
    Except Fault (List Key) := do
  checkedMain layout source
  let parts ← partsOf layout source pinned
  match writer.replay with
  | some replay => .ok (mintedMatching (replay.minted source) parts)
  | none =>
      let rows := OrderedSet.ofList (writer.store.keysPinned (mainOf source) parts)
      let minted := OrderedSet.ofList
        (mintedMatching (writer.pendingKeys (mainOf source)) parts)
      .ok (rows.union minted).items

/-- The writer as the sink of a record's arms. -/
def sink (due : Pending Cell → Bool) : Sink (Writer layout) Value where
  value := value
  set := set due
  keys := keys

end Writer

/-- How many rows a writer holds before it writes them. -/
def flushRows : Nat := 10000

/-- When a writer flushes on its own. -/
def flushDue (pending : Pending Cell) : Bool := flushRows ≤ pending.entries.length

end Hekla.Folds
