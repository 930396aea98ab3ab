import Hekla.Folds.Sink

/-!
# Buffered writing is writing

Written straight to the store, every cell an arm sets is a statement of its own.
A writer that follows the log holds cells back, but whenever it flushes, what it
reads, what it ranges over and what it leaves is what writing straight through
would have.
-/

namespace Hekla.Folds

open Library

variable {Value Cell : Type} {layout : Layout Value Cell}

namespace Store

/-- A cell, or the seed of its fold. -/
def readCell (store : Store layout) (column : Column) (key : Key) : Except Fault Value :=
  (layout.decode column (store.cells column key)).map fun found => found.getD (layout.seed column)

/-- The statements behind one cell: its row, in the main table too, and the cell. -/
def putCell (store : Store layout) (column : Column) (key : Key) (cell : Cell) : Store layout :=
  let kept := if column.collection then store.ensureRow (mainOf column.source) key else store
  kept.writeRow column.held key (Table.set ∅ column.name cell)

/-- The store as a sink of its own, with nothing held back. -/
def direct : Sink (Store layout) Value where
  value store column key := do
    checked layout column key
    if key ∈ store.keys column.held then layout.decode column (store.cells column key)
    else .ok none
  set store column key value := do
    checked layout column key
    let cell ← layout.encode column value
    .ok (store.putCell column key cell)
  keys store source pinned := do
    checkedMain layout source
    let parts ← partsOf layout source pinned
    .ok (store.keysPinned (mainOf source) parts)

/-- Every key of a table has a text for each part. -/
def Sized (store : Store layout) : Prop :=
  ∀ table key, key ∈ store.keys table → key.length = layout.arity table.source

variable {store : Store layout}

@[simp]
theorem mem_ensureRow {table other : Held} {key place : Key} :
    place ∈ (store.ensureRow table key).keys other ↔
      (other = table ∧ place = key) ∨ place ∈ store.keys other := by
  unfold ensureRow
  by_cases here : other = table
  · subst here
    simp
  · simp [here]

@[simp]
theorem mem_writeRow {table other : Held} {key place : Key} {cells : Table String Cell} :
    place ∈ (store.writeRow table key cells).keys other ↔
      (other = table ∧ place = key) ∨ place ∈ store.keys other := mem_ensureRow

@[simp]
theorem cells_ensureRow {table : Held} {key : Key} :
    (store.ensureRow table key).cells = store.cells := rfl

theorem cells_writeRow {table : Held} {key place : Key} {cells : Table String Cell}
    {column : Column} : (store.writeRow table key cells).cells column place =
      if column.held = table ∧ place = key then
        (cells.get column.name).getD (store.cells column place)
      else store.cells column place := rfl

/-- A row that is there already comes into being no second time. -/
theorem ensureRow_of_mem {table : Held} {key : Key} (member : key ∈ store.keys table) :
    store.ensureRow table key = store := by
  apply Store.ext
  · funext other
    ext place
    rw [mem_ensureRow]
    constructor
    · rintro (⟨rfl, rfl⟩ | there)
      · exact member
      · exact there
    · exact .inr
  all_goals rfl

theorem column_eq {column other : Column} (held : column.held = other.held)
    (name : column.name = other.name) : column = other := by
  obtain ⟨source, title, collection⟩ := column
  obtain ⟨source', title', collection'⟩ := other
  simp only [Column.held, Held.mk.injEq] at held
  simp_all

@[simp]
theorem mem_putCell {column : Column} {table : Held} {key place : Key} {cell : Cell} :
    place ∈ (store.putCell column key cell).keys table ↔
      ((table = column.held ∨ table = mainOf column.source) ∧ place = key) ∨
        place ∈ store.keys table := by
  unfold putCell
  rw [mem_writeRow]
  cases collection : column.collection with
  | false =>
      have main : column.held = mainOf column.source := by simp [Column.held, mainOf, collection]
      simp [main]
  | true =>
      simp only [if_true, mem_ensureRow]
      tauto

@[simp]
theorem cells_putCell {column other : Column} {key place : Key} {cell : Cell} :
    (store.putCell column key cell).cells other place =
      if other = column ∧ place = key then cell else store.cells other place := by
  have bare : (if column.collection then store.ensureRow (mainOf column.source) key
      else store).cells = store.cells := by
    split <;> rfl
  unfold putCell
  rw [cells_writeRow, bare]
  by_cases here : other.held = column.held ∧ place = key
  · rw [if_pos here, Table.get_set]
    by_cases named : other.name = column.name
    · rw [if_pos named, if_pos ⟨column_eq here.1 named, here.2⟩, Option.getD_some]
    · rw [if_neg named, if_neg]
      · simp
      · rintro ⟨rfl, -⟩
        exact named rfl
  · rw [if_neg here, if_neg]
    rintro ⟨rfl, same⟩
    exact here ⟨rfl, same⟩

@[simp]
theorem checkpoint_putCell {column : Column} {key : Key} {cell : Cell} :
    (store.putCell column key cell).checkpoint = store.checkpoint := by
  unfold putCell
  split <;> rfl

@[simp]
theorem builtTo_putCell {column : Column} {key : Key} {cell : Cell} :
    (store.putCell column key cell).builtTo = store.builtTo := by
  unfold putCell
  split <;> rfl

/-- A row that does not exist reads as the seed, like a cell no arm has written. -/
theorem read_direct (column : Column) (key : Key) :
    direct.read layout.seed store column key =
      checked layout column key >>= fun _ => store.readCell column key := by
  change (checked layout column key >>= fun _ =>
    if key ∈ store.keys column.held then layout.decode column (store.cells column key)
    else .ok none).map (fun found => found.getD (layout.seed column)) = _
  cases checked layout column key with
  | error fault => rfl
  | ok _ =>
      change (if key ∈ store.keys column.held then layout.decode column (store.cells column key)
        else .ok none).map _ = store.readCell column key
      unfold readCell
      split
      · rfl
      · next absent =>
          rw [store.absent column key absent, layout.untouched]
          rfl

theorem sized_putCell {column : Column} {key : Key} {cell : Cell} (sized : store.Sized)
    (fits : key.length = layout.arity column.source) : (store.putCell column key cell).Sized := by
  intro table place member
  rcases mem_putCell.mp member with ⟨rfl | rfl, rfl⟩ | there
  · exact fits
  · exact fits
  · exact sized table place there

end Store

theorem checked_ok {column : Column} {key : Key} {done : Unit}
    (passed : checked layout column key = .ok done) :
    key.length = layout.arity column.source := by
  unfold checked at passed
  split at passed
  · split at passed
    · assumption
    · cases passed
  · cases passed

/-! ## Ranges -/

theorem length_partsOf {source : String} {pinned : List (Nat × String)}
    {parts : List (Option String)} (made : partsOf layout source pinned = .ok parts) :
    parts.length = layout.arity source := by
  unfold partsOf at made
  refine pass_keeps (fun _ => True) (fun parts => parts.length = layout.arity source) ?_
    (fun _ _ => trivial) (List.length_replicate) made
  intro parts next pin _ sized stepped
  split at stepped
  · cases stepped
    rw [List.length_set, sized]
  · cases stepped

/-- A row that carries the pinned parts starts with the leading run of them. -/
theorem isPrefix_of_matching {parts : List (Option String)} {row : Key}
    (sized : row.length = parts.length) (carries : Store.matching parts row = true) :
    (parts.takeWhile Option.isSome).filterMap id <+: row := by
  induction parts generalizing row with
  | nil => exact List.nil_prefix
  | cons part rest ih =>
      cases row with
      | nil => cases sized
      | cons text others =>
          simp only [Store.matching, List.zip_cons_cons, List.all_cons, Bool.and_eq_true] at carries
          cases part with
          | none => exact List.nil_prefix
          | some value =>
              have same : value = text := by simpa using carries.1
              subst same
              exact (List.prefix_cons_inj value).mpr
                (ih (Nat.succ.inj sized) carries.2)

/-- Seeking the leading run finds every minted key that carries the parts, in order. -/
theorem mintedMatching_eq {minted : OrderedSet Key} {parts : List (Option String)}
    (sized : ∀ row ∈ minted, row.length = parts.length) :
    mintedMatching minted parts = minted.items.filter (Store.matching parts) := by
  unfold mintedMatching
  dsimp only
  split
  · rfl
  · rw [OrderedSet.seek_isPrefix, List.filter_filter]
    apply List.filter_congr
    intro row member
    cases carries : Store.matching parts row with
    | false => rfl
    | true =>
        rw [Bool.true_and, List.isPrefixOf_iff_prefix]
        exact isPrefix_of_matching (sized row member) carries

/-! ## What a flush leaves -/

namespace Writer

variable (writer : Writer layout)

/-- The store as the writer would leave it. -/
def flushed : Store layout := writer.flush.store

theorem writeRows_spec (entries : List (Sigma fun _ : Held × Key => Table String Cell))
    (distinct : entries.NodupKeys) (store : Store layout) :
    let after := entries.foldl (fun store entry =>
      store.writeRow entry.1.1 entry.1.2 entry.2) store
    (∀ table key, key ∈ after.keys table ↔
      key ∈ store.keys table ∨ (entries.dlookup (table, key)).isSome = true) ∧
    (∀ column key, after.cells column key =
      ((entries.dlookup (column.held, key)).bind fun row => row.get column.name).getD
        (store.cells column key)) ∧
    after.checkpoint = store.checkpoint ∧ after.builtTo = store.builtTo := by
  induction entries generalizing store with
  | nil => simp
  | cons entry rest ih =>
      obtain ⟨⟨table, key⟩, row⟩ := entry
      obtain ⟨fresh, distinctRest⟩ := List.nodupKeys_cons.mp distinct
      obtain ⟨keys, cells, checkpoint, builtTo⟩ := ih distinctRest (store.writeRow table key row)
      refine ⟨?_, ?_, checkpoint, builtTo⟩
      · intro other place
        rw [List.foldl_cons, keys, Store.mem_writeRow]
        by_cases here : (other, place) = (table, key)
        · cases here
          simp
        · have apart : ¬ (other = table ∧ place = key) := fun same => here (Prod.ext same.1 same.2)
          rw [List.dlookup_cons_ne _ _ here]
          simp [apart]
      · intro column place
        rw [List.foldl_cons, cells, Store.cells_writeRow]
        by_cases here : (column.held, place) = (table, key)
        · cases here
          rw [List.dlookup_eq_none.mpr fresh, List.dlookup_cons_eq, if_pos ⟨rfl, rfl⟩]
          simp
        · have apart : ¬ (column.held = table ∧ place = key) :=
            fun same => here (Prod.ext same.1 same.2)
          rw [List.dlookup_cons_ne _ _ here, if_neg apart]

theorem mem_flushed {table : Held} {key : Key} : key ∈ writer.flushed.keys table ↔
    key ∈ writer.store.keys table ∨ (writer.pending.get (table, key)).isSome = true :=
  (writeRows_spec writer.pending.entries writer.pending.nodupKeys writer.store).1 table key

theorem cells_flushed (column : Column) (key : Key) : writer.flushed.cells column key =
    (writer.pendingCell column key).getD (writer.store.cells column key) :=
  (writeRows_spec writer.pending.entries writer.pending.nodupKeys writer.store).2.1 column key

theorem checkpoint_flushed : writer.flushed.checkpoint = writer.store.checkpoint :=
  (writeRows_spec writer.pending.entries writer.pending.nodupKeys writer.store).2.2.1

theorem builtTo_flushed : writer.flushed.builtTo = writer.store.builtTo :=
  (writeRows_spec writer.pending.entries writer.pending.nodupKeys writer.store).2.2.2

theorem flushed_flush : writer.flush.flushed = writer.flushed := rfl

/-- Main-table keys the batch has made sure of are there. -/
def Ensured : Prop :=
  ∀ source key, (source, key) ∈ writer.ensured → key ∈ writer.store.keys (mainOf source)

/-- A writer that has written nothing yet has made sure of nothing. -/
theorem ensured_of_fresh (store : Store layout) (replay : Option (Replay Value)) :
    ({ store, replay } : Writer layout).Ensured := nofun

variable {writer}

theorem storedValue_read (column : Column) (key : Key) :
    (writer.storedValue column key).map (fun found => found.getD (layout.seed column)) =
      writer.flushed.readCell column key := by
  unfold Store.readCell storedValue
  rw [cells_flushed]
  cases writer.pendingCell column key with
  | some cell => rfl
  | none =>
      dsimp only [Option.getD_none]
      split
      · rfl
      · next absent =>
          rw [writer.store.absent column key absent, layout.untouched]
          rfl

theorem ensure_spec (ensured : writer.Ensured) (column : Column) (key : Key) :
    (writer.ensure column key).Ensured ∧
      (writer.ensure column key).replay = writer.replay ∧
      (writer.ensure column key).flushed =
        if column.collection then writer.flushed.ensureRow (mainOf column.source) key
        else writer.flushed := by
  unfold ensure
  by_cases collection : column.collection = true
  · by_cases listed : (column.source, key) ∈ writer.ensured
    · rw [if_neg (by simp [collection, listed]), if_pos collection]
      refine ⟨ensured, rfl, (Store.ensureRow_of_mem ?_).symm⟩
      exact (mem_flushed writer).mpr (.inl (ensured _ _ listed))
    · rw [if_pos (by simp [collection, listed]), if_pos collection]
      refine ⟨?_, rfl, ?_⟩
      · intro source place member
        rw [Store.mem_ensureRow]
        rcases List.mem_cons.mp member with same | earlier
        · cases same
          exact .inl ⟨rfl, rfl⟩
        · exact .inr (ensured source place earlier)
      · apply Store.ext
        · funext table
          ext place
          rw [mem_flushed, Store.mem_ensureRow, Store.mem_ensureRow, mem_flushed, or_assoc]
        · funext other place
          rw [cells_flushed, Store.cells_ensureRow, Store.cells_ensureRow, cells_flushed]
          rfl
        · exact (checkpoint_flushed _).trans (checkpoint_flushed writer).symm
        · exact (builtTo_flushed _).trans (builtTo_flushed writer).symm
  · rw [if_neg (by simp [collection]), if_neg collection]
    exact ⟨ensured, rfl, rfl⟩

theorem hold_spec (due : Pending Cell → Bool) (ensured : writer.Ensured) (column : Column)
    (key : Key) (cell : Cell) :
    (writer.hold due column key cell).Ensured ∧
      (writer.hold due column key cell).replay = writer.replay ∧
      (writer.hold due column key cell).flushed =
        writer.flushed.writeRow column.held key (Table.set ∅ column.name cell) := by
  have written (row : Table String Cell)
      (same : row = (writer.pending.get (column.held, key)).getD ∅) :
      ({ writer with
        pending := writer.pending.set (column.held, key) (row.set column.name cell) } :
          Writer layout).flushed =
        writer.flushed.writeRow column.held key (Table.set ∅ column.name cell) := by
    apply Store.ext
    · funext table
      ext place
      rw [mem_flushed, Store.mem_writeRow, mem_flushed]
      dsimp only
      rw [Table.get_set]
      by_cases here : (table, place) = (column.held, key)
      · cases here
        simp
      · have apart : ¬ (table = column.held ∧ place = key) := fun same => here (Prod.ext same.1 same.2)
        simp [here, apart]
    · funext other place
      rw [cells_flushed, Store.cells_writeRow, cells_flushed]
      unfold pendingCell
      dsimp only
      rw [Table.get_set]
      by_cases here : (other.held, place) = (column.held, key)
      · rw [if_pos here, if_pos (Prod.mk.inj here), Option.bind_some, Table.get_set, Table.get_set]
        split
        · rfl
        · rw [here, same, Table.get_empty, Option.getD_none]
          cases writer.pending.get (column.held, key) with
          | none => simp
          | some row => rfl
      · rw [if_neg here, if_neg fun same => here (Prod.ext same.1 same.2)]
    · exact (checkpoint_flushed _).trans (checkpoint_flushed writer).symm
    · exact (builtTo_flushed _).trans (builtTo_flushed writer).symm
  unfold hold
  dsimp only
  split
  · refine ⟨?_, rfl, written _ rfl⟩
    intro source place member
    exact (mem_flushed _).mpr (.inl (ensured source place member))
  · exact ⟨ensured, rfl, written _ rfl⟩

/-- A cell put through the buffer is a cell put through. -/
theorem put_spec (due : Pending Cell → Bool) (ensured : writer.Ensured) (column : Column)
    (key : Key) (cell : Cell) :
    ((writer.ensure column key).hold due column key cell).Ensured ∧
      ((writer.ensure column key).hold due column key cell).replay = writer.replay ∧
      ((writer.ensure column key).hold due column key cell).flushed =
        writer.flushed.putCell column key cell := by
  obtain ⟨ensuredFirst, replayFirst, flushedFirst⟩ := ensure_spec ensured column key
  obtain ⟨ensuredLast, replayLast, flushedLast⟩ := hold_spec due ensuredFirst column key cell
  refine ⟨ensuredLast, replayLast.trans replayFirst, ?_⟩
  rw [flushedLast, flushedFirst]
  rfl

theorem mem_pendingKeys {table : Held} {key : Key} :
    key ∈ writer.pendingKeys table ↔ (writer.pending.get (table, key)).isSome = true := by
  unfold pendingKeys
  rw [OrderedSet.mem_ofList, Option.isSome_iff_exists]
  constructor
  · intro member
    obtain ⟨place, listed, rfl⟩ := List.mem_map.mp member
    obtain ⟨held, here⟩ := List.mem_filter.mp listed
    obtain ⟨row, found⟩ := (Table.mem_keys_iff _ _).mp held
    exact ⟨row, (beq_iff_eq.mp here) ▸ found⟩
  · rintro ⟨row, found⟩
    refine List.mem_map.mpr ⟨(table, key), List.mem_filter.mpr ⟨?_, beq_iff_eq.mpr rfl⟩, rfl⟩
    exact (Table.mem_keys_iff _ _).mpr ⟨row, found⟩

/-- A range over rows and pending keys is the range over the rows a flush would leave. -/
theorem rows_eq (sized : writer.flushed.Sized) {source : String} {parts : List (Option String)}
    (arity : layout.arity source ≠ 0) (length : parts.length = layout.arity source) :
    ((OrderedSet.ofList (writer.store.keysPinned (mainOf source) parts)).union
        (OrderedSet.ofList (mintedMatching (writer.pendingKeys (mainOf source)) parts))).items =
      writer.flushed.keysPinned (mainOf source) parts := by
  have fits : ∀ row ∈ writer.pendingKeys (mainOf source), row.length = parts.length := by
    intro row member
    rw [length]
    exact sized (mainOf source) row ((mem_flushed writer).mpr (.inr (mem_pendingKeys.mp member)))
  have keyed : ¬ layout.arity (mainOf source).source = 0 := arity
  rw [mintedMatching_eq fits]
  unfold Store.keysPinned
  rw [if_neg keyed, if_neg keyed]
  have same : (OrderedSet.ofList ((writer.store.keys (mainOf source)).items.filter
        (Store.matching parts))).union (OrderedSet.ofList
        ((writer.pendingKeys (mainOf source)).items.filter (Store.matching parts))) =
      (writer.flushed.keys (mainOf source)).filter (Store.matching parts) := by
    ext row
    rw [OrderedSet.mem_union, OrderedSet.mem_ofList, OrderedSet.mem_ofList, OrderedSet.mem_filter,
      List.mem_filter, List.mem_filter, mem_flushed, ← OrderedSet.mem_iff, ← OrderedSet.mem_iff,
      mem_pendingKeys]
    exact or_and_right.symm
  exact congrArg OrderedSet.items same

end Writer

end Hekla.Folds
