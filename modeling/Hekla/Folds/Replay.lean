import Hekla.Folds.Buffer

/-!
# Following the log and replaying it

Followed live, a buffered writer is at every record where writing straight
through would be.  A replay runs the columns being rebuilt, and beside them what
they look up and what mints the keys they range over, and is at every record
where the whole program was: in the store for the columns it rebuilds, in its
overlay for the others, and in its minted keys for the tables it ranges over.
-/

namespace Hekla.Folds

open Library

variable {Record Value Cell : Type} {layout : Layout Value Cell}

/-- The tables of a program: its arms in order, the records they are for, and
for any folds to rebuild the columns that have to run beside them. -/
structure Tables (Record : Type) (layout : Layout Value Cell) where
  arms : List (Arm Record Value)
  query : Record → Bool
  closure : List Column → List Column
  queried : ∀ record, query record = false → ∀ arm ∈ arms, arm.reach.misses record = true
  /-- Only a table with a key has a part to leave open. -/
  keyed : ∀ arm ∈ arms, arm.reach.ranges = true → layout.arity arm.column.source ≠ 0
  rebuilt : ∀ folds, ∀ column ∈ folds, column ∈ closure folds
  reads : ∀ folds, ∀ arm ∈ arms, arm.column ∈ closure folds →
    ∀ column, arm.Reads column → column ∈ closure folds
  mints : ∀ folds, ∀ arm ∈ arms, arm.reach.ranges = true → arm.column ∈ closure folds →
    ∀ other ∈ arms, other.reach.ranges = false → other.column.source = arm.column.source →
      other.column ∈ closure folds

/-- The arms of the columns to rebuild and of what they need. -/
def Tables.only (tables : Tables Record layout) (folds : List Column) : List (Arm Record Value) :=
  tables.arms.filter fun arm => (tables.closure folds).contains arm.column

/-- A store, and the keys each column was written at on the way to it. -/
structure Traced (layout : Layout Value Cell) where
  store : Store layout
  wrote : Column → OrderedSet Key

namespace Traced

/-- Writing straight through, and keeping track of it. -/
def sink : Sink (Traced layout) Value where
  value traced := Store.direct.value traced.store
  set traced column key value := do
    let store ← Store.direct.set traced.store column key value
    .ok ⟨store, Function.update traced.wrote column ((traced.wrote column).insert key)⟩
  keys traced := Store.direct.keys traced.store

/-- The rows of the store are those of the keys its columns were written at. -/
structure Accounts (traced : Traced layout) : Prop where
  sized : traced.store.Sized
  rows : ∀ table key, key ∈ traced.store.keys table ↔
    ∃ column, (table = column.held ∨ table = mainOf column.source) ∧ key ∈ traced.wrote column

theorem set_ok {traced next : Traced layout} {column : Column} {key : Key} {value : Value}
    (set : sink.set traced column key value = .ok next) :
    checked layout column key = .ok () ∧ ∃ cell, layout.encode column value = .ok cell ∧
      next.store = traced.store.putCell column key cell ∧
      next.wrote = Function.update traced.wrote column ((traced.wrote column).insert key) := by
  obtain ⟨store, put, set⟩ := bind_ok.mp set
  obtain ⟨done, passed, put⟩ := bind_ok.mp put
  obtain ⟨cell, encoded, put⟩ := bind_ok.mp put
  cases put
  cases set
  exact ⟨passed, cell, encoded, rfl, rfl⟩

theorem Accounts.set {traced next : Traced layout} {column : Column} {key : Key} {value : Value}
    (accounts : traced.Accounts) (set : sink.set traced column key value = .ok next) :
    next.Accounts := by
  obtain ⟨passed, cell, -, store, wrote⟩ := set_ok set
  constructor
  · rw [store]
    exact Store.sized_putCell accounts.sized (checked_ok passed)
  · intro table place
    rw [store, wrote, Store.mem_putCell, accounts.rows]
    constructor
    · rintro (⟨there, rfl⟩ | ⟨other, there, member⟩)
      · exact ⟨column, there, by simp⟩
      · refine ⟨other, there, ?_⟩
        by_cases here : other = column
        · subst here
          simp [member]
        · rw [Function.update_of_ne here]
          exact member
    · rintro ⟨other, there, member⟩
      by_cases here : other = column
      · subst here
        rw [Function.update_self, OrderedSet.mem_insert] at member
        rcases member with rfl | member
        · exact .inl ⟨there, rfl⟩
        · exact .inr ⟨other, there, member⟩
      · rw [Function.update_of_ne here] at member
        exact .inr ⟨other, there, member⟩

/-- Keeping track changes nothing. -/
theorem follows (columns : Column → Bool) (sources : String → Prop) :
    Follows (Store.direct : Sink (Store layout) Value) sink layout.seed
      (fun store traced => traced.store = store ∧ traced.Accounts) columns sources where
  read := by
    rintro store traced column key value ⟨rfl, -⟩ - read
    exact read
  keys := by
    rintro store traced source parts keys ⟨rfl, -⟩ - listed
    exact listed
  set := by
    rintro store next traced column key value ⟨rfl, accounts⟩ - set
    have traces : sink.set traced column key value = .ok
        ⟨next, Function.update traced.wrote column ((traced.wrote column).insert key)⟩ :=
      bind_ok.mpr ⟨next, set, rfl⟩
    exact ⟨_, traces, rfl, accounts.set traces⟩

end Traced

/-! ## Following live -/

theorem Writer.set_live {writer : Writer layout} (live : writer.replay = none)
    (due : Pending Cell → Bool) (column : Column) (key : Key) (value : Value) :
    writer.set due column key value =
      checked layout column key >>= fun _ => layout.encode column value >>= fun cell =>
        .ok ((writer.ensure column key).hold due column key cell) := by
  unfold Writer.set
  rw [live]
  rfl

/-- However a live writer is used, it moves no mark. -/
theorem Writer.follows_marks (due : Pending Cell → Bool) (marks : Column → Option Nat)
    (columns : Column → Bool) (sources : String → Prop) :
    Follows (Writer.sink due) (Writer.sink due) layout.seed
      (fun (writer other : Writer layout) => writer = other ∧ writer.replay = none ∧ writer.Ensured ∧
        writer.flushed.builtTo = marks) columns sources where
  read := by
    rintro writer other column key value ⟨rfl, -⟩ - read
    exact read
  keys := by
    rintro writer other source pinned keys ⟨rfl, -⟩ - listed
    exact listed
  set := by
    rintro writer next other column key value ⟨rfl, live, ensured, marked⟩ - set
    refine ⟨next, set, rfl, ?_⟩
    have set : writer.set due column key value = .ok next := set
    rw [Writer.set_live live] at set
    obtain ⟨_, -, set⟩ := bind_ok.mp set
    obtain ⟨cell, -, set⟩ := bind_ok.mp set
    cases set
    obtain ⟨ensuredNext, replay, flushed⟩ := Writer.put_spec due ensured column key cell
    refine ⟨replay.trans live, ensuredNext, ?_⟩
    rw [flushed, Store.builtTo_putCell, marked]

/-- A writer that follows the log is, but for its buffer, at this store. -/
structure Buffers (writer : Writer layout) (store : Store layout) : Prop where
  live : writer.replay = none
  flushed : writer.flushed = store
  ensured : writer.Ensured
  sized : store.Sized

namespace Buffers

variable {writer : Writer layout} {store : Store layout}

theorem read_eq (buffers : Buffers writer store) (due : Pending Cell → Bool) (column : Column)
    (key : Key) : (Writer.sink due).read layout.seed writer column key =
      Store.direct.read layout.seed store column key := by
  rw [Store.read_direct, ← buffers.flushed, ← Writer.storedValue_read]
  change (writer.value column key).map _ = _
  unfold Writer.value
  rw [buffers.live]
  cases checked layout column key <;> rfl

theorem keys_eq (buffers : Buffers writer store) (due : Pending Cell → Bool) {source : String}
    (keyed : layout.arity source ≠ 0) (pinned : List (Nat × String)) :
    (Writer.sink due).keys writer source pinned = Store.direct.keys store source pinned := by
  change writer.keys source pinned =
    checkedMain layout source >>= fun _ => partsOf layout source pinned >>= fun parts =>
      .ok (store.keysPinned (mainOf source) parts)
  unfold Writer.keys
  rw [buffers.live]
  cases checkedMain layout source with
  | error fault => rfl
  | ok _ =>
      cases made : partsOf layout source pinned with
      | error fault => rfl
      | ok parts =>
          have rows := Writer.rows_eq (buffers.flushed ▸ buffers.sized) keyed (length_partsOf made)
          rw [buffers.flushed] at rows
          exact congrArg Except.ok rows

theorem put (buffers : Buffers writer store) (due : Pending Cell → Bool) {column : Column}
    {key : Key} (fits : key.length = layout.arity column.source) (cell : Cell) :
    Buffers ((writer.ensure column key).hold due column key cell)
      (store.putCell column key cell) := by
  obtain ⟨ensured, replay, flushed⟩ := Writer.put_spec due buffers.ensured column key cell
  constructor
  · rw [replay, buffers.live]
  · rw [flushed, buffers.flushed]
  · exact ensured
  · exact Store.sized_putCell buffers.sized fits

/-- Live, a writer does what writing straight through does. -/
theorem follows (due : Pending Cell → Bool) :
    Follows (Writer.sink due) (Store.direct : Sink (Store layout) Value) layout.seed Buffers
      (fun _ => true) (fun source => layout.arity source ≠ 0) where
  read buffers _ read := (buffers.read_eq due _ _).symm.trans read
  keys buffers keyed listed := (buffers.keys_eq due keyed _).symm.trans listed
  set := by
    intro writer next store column key value buffers _ set
    have set : writer.set due column key value = .ok next := set
    rw [Writer.set_live buffers.live] at set
    obtain ⟨done, passed, set⟩ := bind_ok.mp set
    obtain ⟨cell, encoded, set⟩ := bind_ok.mp set
    cases set
    refine ⟨store.putCell column key cell, ?_, buffers.put due (checked_ok passed) cell⟩
    exact bind_ok.mpr ⟨done, passed, bind_ok.mpr ⟨cell, encoded, rfl⟩⟩

/-- Whatever writing straight through does, a live writer does. -/
theorem followed (due : Pending Cell → Bool) :
    Follows (Store.direct : Sink (Store layout) Value) (Writer.sink due) layout.seed
      (fun store writer => Buffers writer store) (fun _ => true)
      (fun source => layout.arity source ≠ 0) where
  read buffers _ read := (buffers.read_eq due _ _).trans read
  keys buffers keyed listed := (buffers.keys_eq due keyed _).trans listed
  set := by
    intro store next writer column key value buffers _ set
    obtain ⟨done, passed, set⟩ := bind_ok.mp set
    obtain ⟨cell, encoded, set⟩ := bind_ok.mp set
    cases set
    refine ⟨_, ?_, buffers.put due (checked_ok passed) cell⟩
    change writer.set due column key value = _
    rw [Writer.set_live buffers.live]
    exact bind_ok.mpr ⟨done, passed, bind_ok.mpr ⟨cell, encoded, rfl⟩⟩

end Buffers

/-! ## Replaying -/

/-- The tables some column of a replay ranges over. -/
def Tables.Ranges (tables : Tables Record layout) (folds : List Column) (source : String) : Prop :=
  ∃ arm ∈ tables.arms, arm.reach.ranges = true ∧ arm.column ∈ tables.closure folds ∧
    arm.column.source = source

/-- What a replay keeps beside the store is what the whole program has there. -/
structure Beside (tables : Tables Record layout) (folds : List Column) (traced : Traced layout)
    (replay : Folds.Replay Value) : Prop where
  only : replay.only = folds
  overlay : ∀ column ∈ tables.closure folds, column ∉ folds → ∀ key value,
    traced.store.readCell column key = .ok value →
      (replay.overlay column key).getD (layout.seed column) = value
  minted : ∀ source, tables.Ranges folds source →
    replay.minted source = traced.store.keys (mainOf source)

/-- A replay of some folds from a store, where the whole program is at a traced one. -/
structure Replays (tables : Tables Record layout) (folds : List Column) (start : Store layout)
    (traced : Traced layout) (writer : Writer layout) : Prop where
  beside : ∃ replay, writer.replay = some replay ∧ Beside tables folds traced replay
  rebuilt : ∀ column ∈ folds, writer.flushed.cells column = traced.store.cells column
  kept : ∀ column, column ∉ folds → writer.flushed.cells column = start.cells column
  rows : ∀ table key, key ∈ start.keys table → key ∈ writer.flushed.keys table
  bound : ∀ table key, key ∈ writer.flushed.keys table →
    key ∈ start.keys table ∨ key ∈ traced.store.keys table
  covers : ∀ column ∈ folds, ∀ key ∈ traced.wrote column, ∀ table,
    table = column.held ∨ table = mainOf column.source → key ∈ writer.flushed.keys table
  accounts : traced.Accounts
  ensured : writer.Ensured
  marks : writer.flushed.checkpoint = start.checkpoint ∧ writer.flushed.builtTo = start.builtTo

theorem Store.keys_putCell_main {store : Store layout} {column : Column} {key : Key} {cell : Cell}
    (source : String) : (store.putCell column key cell).keys (mainOf source) =
      if source = column.source then (store.keys (mainOf source)).insert key
      else store.keys (mainOf source) := by
  ext place
  rw [Store.mem_putCell]
  split
  · next here =>
      subst here
      simp
  · next elsewhere =>
      have other : ¬ (mainOf source = column.held ∨ mainOf source = mainOf column.source) := by
        simp [mainOf, Column.held, elsewhere]
      simp [other]

/-- What is read of one column does not move with another. -/
theorem Store.readCell_putCell {store : Store layout} {column other : Column} {key place : Key}
    {cell : Cell} (differ : other ≠ column) :
    (store.putCell column key cell).readCell other place = store.readCell other place := by
  unfold Store.readCell
  rw [Store.cells_putCell, if_neg fun same => differ same.1]

namespace Replays

variable {tables : Tables Record layout} {folds : List Column} {start : Store layout}
  {traced next : Traced layout} {writer : Writer layout}

/-- A column the replay does not run is written at a key its ranges do not miss. -/
theorem idle (replays : Replays tables folds start traced writer) {column : Column} {key : Key}
    {value : Value} (outside : column ∉ tables.closure folds)
    (there : tables.Ranges folds column.source →
      key ∈ traced.store.keys (mainOf column.source))
    (set : Traced.sink.set traced column key value = .ok next) :
    Replays tables folds start next writer := by
  obtain ⟨-, cell, -, store, wrote⟩ := Traced.set_ok set
  obtain ⟨replay, replaying, beside⟩ := replays.beside
  have apart {other : Column} (member : other ∈ tables.closure folds) : other ≠ column :=
    fun same => outside (same ▸ member)
  refine ⟨⟨replay, replaying, beside.only, ?_, ?_⟩, ?_, replays.kept, replays.rows, ?_, ?_,
    replays.accounts.set set, replays.ensured, replays.marks⟩
  · intro other member rest place found read
    rw [store, Store.readCell_putCell (apart member)] at read
    exact beside.overlay other member rest place found read
  · intro source ranges
    rw [store, Store.keys_putCell_main, beside.minted source ranges]
    split
    · next here =>
        subst here
        rw [OrderedSet.insert_of_mem (there ranges)]
    · rfl
  · intro other member
    funext place
    rw [replays.rebuilt other member, store, Store.cells_putCell,
      if_neg fun same => apart (tables.rebuilt folds other member) same.1]
  · intro table place member
    rw [store, Store.mem_putCell]
    exact (replays.bound table place member).imp_right .inr
  · intro other member place written
    rw [wrote, Function.update_of_ne (apart (tables.rebuilt folds other member))] at written
    exact replays.covers other member place written

theorem minted_set {replay : Folds.Replay Value} (beside : Beside tables folds traced replay)
    {column : Column} {key : Key} {cell : Cell} (store : next.store = traced.store.putCell column key cell) :
    ∀ source, tables.Ranges folds source →
      (Writer.Replay.minting replay column key).minted source =
        next.store.keys (mainOf source) := by
  intro source ranges
  rw [store, Store.keys_putCell_main]
  dsimp only [Writer.Replay.minting]
  split
  · next here =>
      subst here
      rw [Function.update_self, beside.minted _ ranges]
  · next elsewhere =>
      rw [Function.update_of_ne elsewhere, beside.minted _ ranges]

/-- A column being rebuilt is written to the store. -/
theorem put (due : Pending Cell → Bool) (replays : Replays tables folds start traced writer)
    {column : Column} {key : Key} {value : Value} (member : column ∈ folds)
    (set : Traced.sink.set traced column key value = .ok next) :
    ∃ written, writer.set due column key value = .ok written ∧
      Replays tables folds start next written := by
  obtain ⟨passed, cell, encoded, store, wrote⟩ := Traced.set_ok set
  obtain ⟨replay, replaying, beside⟩ := replays.beside
  let minting : Writer layout :=
    { writer with replay := some (Writer.Replay.minting replay column key) }
  have ensured : minting.Ensured := replays.ensured
  obtain ⟨ensuredNext, replayNext, flushed⟩ := Writer.put_spec due ensured column key cell
  have flushed : ((minting.ensure column key).hold due column key cell).flushed =
      writer.flushed.putCell column key cell := flushed
  refine ⟨(minting.ensure column key).hold due column key cell, ?_, ?_⟩
  · have listed : replay.only.contains column = true := by
      rw [beside.only]
      exact List.contains_iff_mem.mpr member
    unfold Writer.set
    rw [passed, replaying]
    refine bind_ok.mpr ⟨(), rfl, ?_⟩
    dsimp only
    rw [if_pos listed]
    exact bind_ok.mpr ⟨cell, encoded, rfl⟩
  · refine ⟨⟨_, replayNext, beside.only, ?_, minted_set beside store⟩, ?_, ?_, ?_, ?_, ?_,
      replays.accounts.set set, ensuredNext, ?_⟩
    · intro other inside rest place found read
      have apart : other ≠ column := fun same => rest (same ▸ member)
      rw [store, Store.readCell_putCell apart] at read
      exact beside.overlay other inside rest place found read
    · intro other inside
      funext place
      rw [flushed, store, Store.cells_putCell, Store.cells_putCell, replays.rebuilt other inside]
    · intro other outside
      funext place
      have apart : ¬ (other = column ∧ place = key) := fun same => outside (same.1 ▸ member)
      rw [flushed, Store.cells_putCell, if_neg apart, replays.kept other outside]
    · intro table place started
      rw [flushed, Store.mem_putCell]
      exact .inr (replays.rows table place started)
    · intro table place there
      rw [flushed, Store.mem_putCell] at there
      rw [store, Store.mem_putCell]
      rcases there with new | there
      · exact .inr (.inl new)
      · exact (replays.bound table place there).imp_right .inr
    · intro other inside place written table there
      rw [flushed, Store.mem_putCell]
      by_cases here : other = column
      · subst here
        rw [wrote, Function.update_self, OrderedSet.mem_insert] at written
        rcases written with rfl | written
        · exact .inl ⟨there, rfl⟩
        · exact .inr (replays.covers other inside place written table there)
      · rw [wrote, Function.update_of_ne here] at written
        exact .inr (replays.covers other inside place written table there)
    · rw [flushed]
      simpa using replays.marks

/-- A column that runs beside the rebuilt ones is kept in the overlay. -/
theorem overlay (due : Pending Cell → Bool) (replays : Replays tables folds start traced writer)
    {column : Column} {key : Key} {value : Value} (outside : column ∉ folds)
    (set : Traced.sink.set traced column key value = .ok next) :
    ∃ written, writer.set due column key value = .ok written ∧
      Replays tables folds start next written := by
  obtain ⟨passed, cell, encoded, store, wrote⟩ := Traced.set_ok set
  obtain ⟨replay, replaying, beside⟩ := replays.beside
  have unlisted : ¬ replay.only.contains column = true := by
    rw [beside.only, List.contains_iff_mem]
    exact outside
  unfold Writer.set
  rw [passed, replaying]
  refine ⟨_, bind_ok.mpr ⟨(), rfl, if_neg unlisted⟩, ⟨_, rfl, beside.only, ?_, minted_set beside store⟩, ?_, replays.kept,
    replays.rows, ?_, ?_, replays.accounts.set set, replays.ensured, replays.marks⟩
  · intro other inside rest place found read
    dsimp only
    by_cases here : other = column ∧ place = key
    · obtain ⟨rfl, rfl⟩ := here
      rw [if_pos ⟨rfl, rfl⟩, Option.getD_some]
      have back := layout.written encoded
      unfold Store.readCell at read
      rw [store, Store.cells_putCell, if_pos ⟨rfl, rfl⟩, back] at read
      exact Except.ok.inj read
    · rw [if_neg here]
      refine beside.overlay other inside rest place found ?_
      unfold Store.readCell at read ⊢
      rw [store, Store.cells_putCell, if_neg here] at read
      exact read
  · intro other inside
    funext place
    have apart : ¬ (other = column ∧ place = key) := fun same => outside (same.1 ▸ inside)
    rw [store, Store.cells_putCell, if_neg apart]
    exact congrFun (replays.rebuilt other inside) place
  · intro table place there
    rw [store, Store.mem_putCell]
    exact (replays.bound table place there).imp_right .inr
  · intro other inside place written
    have apart : other ≠ column := fun same => outside (same ▸ inside)
    rw [wrote, Function.update_of_ne apart] at written
    exact replays.covers other inside place written

theorem read_ok (due : Pending Cell → Bool) (replays : Replays tables folds start traced writer)
    {column : Column} {key : Key} {value : Value} (member : column ∈ tables.closure folds)
    (read : Traced.sink.read layout.seed traced column key = .ok value) :
    (Writer.sink due).read layout.seed writer column key = .ok value := by
  have read : Store.direct.read layout.seed traced.store column key = .ok value := read
  rw [Store.read_direct] at read
  obtain ⟨done, passed, read⟩ := bind_ok.mp read
  obtain ⟨replay, replaying, beside⟩ := replays.beside
  change (writer.value column key).map _ = _
  unfold Writer.value
  rw [passed, replaying]
  change (if replay.only.contains column = true then writer.storedValue column key
    else .ok (replay.overlay column key)).map _ = _
  rw [beside.only]
  by_cases inside : column ∈ folds
  · rw [if_pos (List.contains_iff_mem.mpr inside), Writer.storedValue_read]
    unfold Store.readCell at read ⊢
    rw [replays.rebuilt column inside]
    exact read
  · rw [if_neg fun listed => inside (List.contains_iff_mem.mp listed)]
    exact congrArg Except.ok (beside.overlay column member inside key value read)

theorem keys_ok (due : Pending Cell → Bool) (replays : Replays tables folds start traced writer)
    {source : String} {pinned : List (Nat × String)} {keys : List Key}
    (ranges : tables.Ranges folds source)
    (listed : Traced.sink.keys traced source pinned = .ok keys) :
    (Writer.sink due).keys writer source pinned = .ok keys := by
  obtain ⟨done, main, listed⟩ := bind_ok.mp listed
  obtain ⟨parts, made, listed⟩ := bind_ok.mp listed
  cases listed
  obtain ⟨replay, replaying, beside⟩ := replays.beside
  change writer.keys source pinned = _
  unfold Writer.keys
  rw [main, replaying]
  refine bind_ok.mpr ⟨(), rfl, bind_ok.mpr ⟨parts, made, congrArg Except.ok ?_⟩⟩
  rw [beside.minted _ ranges]
  obtain ⟨arm, member, ranged, -, rfl⟩ := ranges
  have keyed := tables.keyed arm member ranged
  have fits : ∀ row ∈ traced.store.keys (mainOf arm.column.source), row.length = parts.length := by
    intro row there
    rw [length_partsOf made]
    exact replays.accounts.sized _ row there
  unfold Store.keysPinned
  rw [mintedMatching_eq fits, if_neg (show ¬ layout.arity (mainOf _).source = 0 from keyed)]

/-- A replay does what the whole program does to the columns it runs. -/
theorem follows (due : Pending Cell → Bool) (tables : Tables Record layout) (folds : List Column)
    (start : Store layout) :
    Follows Traced.sink (Writer.sink due) layout.seed (Replays tables folds start)
      (fun column => (tables.closure folds).contains column) (tables.Ranges folds) where
  read replays member read := replays.read_ok due (List.contains_iff_mem.mp member) read
  keys replays ranges listed := replays.keys_ok due ranges listed
  set := by
    intro traced next writer column key value replays _ set
    by_cases inside : column ∈ folds
    · exact replays.put due inside set
    · exact replays.overlay due inside set

theorem idle_touch (replays : Replays tables folds start traced writer)
    {arm : Arm Record Value} (outside : arm.column ∉ tables.closure folds) {record : Record}
    {key : Key} (there : tables.Ranges folds arm.column.source →
      key ∈ traced.store.keys (mainOf arm.column.source))
    (touched : arm.touch Traced.sink layout.seed record traced key = .ok next) :
    Replays tables folds start next writer ∧
      ∀ table place, place ∈ traced.store.keys table → place ∈ next.store.keys table := by
  obtain ⟨was, -, touched⟩ := bind_ok.mp touched
  obtain ⟨value, -, set⟩ := bind_ok.mp touched
  refine ⟨replays.idle outside there set, ?_⟩
  obtain ⟨-, cell, -, store, -⟩ := Traced.set_ok set
  intro table place member
  rw [store, Store.mem_putCell]
  exact .inr member

/-- An arm the replay leaves out leaves the replay where it is. -/
theorem idle_apply (replays : Replays tables folds start traced writer) {arm : Arm Record Value}
    (member : arm ∈ tables.arms) (outside : arm.column ∉ tables.closure folds) {record : Record}
    (applied : arm.apply Traced.sink layout.seed record traced = .ok next) :
    Replays tables folds start next writer := by
  unfold Arm.apply at applied
  cases reach : arm.reach with
  | pinned keyOf =>
      simp only [reach] at applied
      split at applied
      · cases applied
        exact replays
      · refine (replays.idle_touch outside ?_ applied).1
        rintro ⟨other, memberOther, ranges, inside, source⟩
        exact absurd (tables.mints folds other memberOther ranges inside arm member
          (by rw [reach]; rfl) source.symm) outside
  | ranged parts =>
      simp only [reach] at applied
      split at applied
      · cases applied
        exact replays
      · next pinned _ =>
          obtain ⟨keys, listed, passed⟩ := bind_ok.mp applied
          have there : ∀ key ∈ keys, key ∈ traced.store.keys (mainOf arm.column.source) := by
            obtain ⟨_, -, listed⟩ := bind_ok.mp listed
            obtain ⟨parts, -, listed⟩ := bind_ok.mp listed
            cases listed
            have keyed : ¬ layout.arity (mainOf arm.column.source).source = 0 :=
              tables.keyed arm member (by rw [reach]; rfl)
            intro key found
            unfold Store.keysPinned at found
            rw [if_neg keyed] at found
            exact (List.mem_filter.mp found).1
          clear listed applied
          induction keys generalizing traced with
          | nil =>
              cases passed
              exact replays
          | cons key rest ih =>
              obtain ⟨middle, touched, passed⟩ := foldlM_cons_ok.mp passed
              obtain ⟨thereKey, thereRest⟩ := List.forall_mem_cons.mp there
              obtain ⟨still, grows⟩ := replays.idle_touch outside (fun _ => thereKey) touched
              exact ih still passed fun other found => grows _ other (thereRest other found)

/-- A replay over any records ends where the whole program over them does. -/
theorem applyAll (due : Pending Cell → Bool) (replays : Replays tables folds start traced writer)
    {records : List Record}
    (applied : Folds.applyAll Traced.sink layout.seed tables.arms records traced = .ok next) :
    ∃ written, Folds.applyAll (Writer.sink due) layout.seed (tables.only folds) records writer =
      .ok written ∧ Replays tables folds start next written := by
  refine (follows due tables folds start).applyAll ?_ ?_ replays applied
  · intro arm member inside
    have inside := List.contains_iff_mem.mp inside
    constructor
    · exact List.contains_iff_mem.mpr inside
    · intro column reads
      exact List.contains_iff_mem.mpr (tables.reads folds arm member inside column reads)
    · intro ranges
      exact ⟨arm, member, ranges, inside, rfl⟩
  · intro arm member outside record traced next writer replays applied
    refine replays.idle_apply member ?_ applied
    intro inside
    rw [List.contains_iff_mem.mpr inside] at outside
    cases outside

end Replays

end Hekla.Folds
