import Hekla.Language.ColumnWriter
import Hekla.Library.Passes

/-!
# Cells that no arm has set

The cells that arms have set are followed beside the tables.  A cell that is not
among them is its column's default, whatever else became of its row; and where
that default holds the seed, so does the cell.
-/

namespace Hekla.Language

open Hekla.Library Hekla.Host Hekla.Reads
open Hekla.Derived (FieldKind)
open Hekla.Reads.Tables (SealedCell rendered)

variable {spelling : Spelling} {language : Heklang} {sqlite : Sqlite}

/-! ## Defaults -/

namespace FoldColumn

variable {column : FoldColumn spelling language}

/-- A column that can be empty is empty by default. -/
theorem default_of_nullable
    (nullable : column.field.sealedUnder ≠ none ∨ column.field.kind.isNullable = true) :
    column.default = none := by
  refine if_pos ?_
  rw [Bool.or_eq_true, Option.isSome_iff_ne_none]
  exact nullable

theorem defaultCell_of_nullable
    (nullable : column.field.sealedUnder ≠ none ∨ column.field.kind.isNullable = true) :
    column.defaultCell sqlite = .null := by
  unfold defaultCell
  rw [default_of_nullable nullable]
  rfl

/-- A column that cannot be empty has its seed for a default. -/
theorem default_of_required (plain : column.field.sealedUnder = none)
    (required : column.field.kind.isNullable = false) :
    column.default = some (formLiteral spelling
      (storedForm spelling column.field.kind (language.written column.seed))) := by
  refine if_neg ?_
  rw [plain, required]
  exact Bool.false_ne_true

theorem defaultCell_of_required (plain : column.field.sealedUnder = none)
    (required : column.field.kind.isNullable = false) :
    column.defaultCell sqlite = (literalOf (formLiteral spelling
      (storedForm spelling column.field.kind (language.written column.seed)))).cell sqlite
        column.field.kind := by
  unfold defaultCell
  rw [default_of_required plain required]
  rfl

theorem seed_holds (required : column.field.kind.isNullable = false) :
    Holds column.field.kind.base (language.written column.seed) := by
  refine holds_of_fits column.fits ?_
  intro empty
  have fits := column.fits
  rw [empty] at fits
  cases fits with
  | none nullable => exact absurd (required.symm.trans nullable) Bool.false_ne_true

/-- What is served of a column that holds its seed. -/
def seedForm (column : FoldColumn spelling language) : Json :=
  columnForm spelling column.field.kind (language.written column.seed)

theorem seedForm_none (none_ : column.seed = .none) : column.seedForm = .null := by
  unfold seedForm
  rw [none_]
  exact columnForm_null

/-- The default that a kept seed makes is served as the seed. -/
theorem default_served (lawful : spelling.Lawful) (numerals : Numerals spelling)
    (plain : column.field.sealedUnder = none) (required : column.field.kind.isNullable = false)
    (renderable : Renderable spelling column.field.kind (language.written column.seed))
    (document : column.field.kind.base = .json →
      DocumentKept spelling sqlite (language.written column.seed)) :
    fromSql spelling column.field (column.defaultCell sqlite) = column.seedForm := by
  rw [fromSql_unsealed plain, defaultCell_of_required plain required]
  exact literal_served lawful numerals (seed_holds required) column.documented renderable document

/-- Where the default of a column holds its seed, so does a reader's cell. -/
theorem rendered_default (lawful : spelling.Lawful) (numerals : Numerals spelling)
    (kept : SeedKept spelling sqlite column) (keystore : Option KeyStore) :
    rendered spelling column.field (column.defaultCell sqlite) keystore = .ok column.seedForm := by
  unfold rendered
  cases kept with
  | personal personal =>
      rw [if_neg (by rwa [Option.isNone_iff_eq_none]), defaultCell_of_nullable (.inl personal), fromSql_null,
        seedForm_none (column.unsealed personal)]
      rfl
  | absent plain nullable none_ =>
      rw [if_pos (Option.isNone_iff_eq_none.mpr plain), defaultCell_of_nullable (.inr nullable),
        fromSql_null, seedForm_none none_]
  | literal plain required renderable document =>
      rw [if_pos (Option.isNone_iff_eq_none.mpr plain),
        default_served lawful numerals plain required renderable document]

/-- And so does what an arm accumulates onto. -/
theorem decoded_default (lawful : spelling.Lawful) (numerals : Numerals spelling)
    (kept : SeedKept spelling sqlite column) :
    ∃ found, FoldRows.decoded column (column.defaultCell sqlite) = .ok found ∧
      found.getD column.seed = column.seed := by
  unfold FoldRows.decoded
  cases kept with
  | personal personal =>
      rw [if_pos (Option.isSome_iff_ne_none.mpr personal), defaultCell_of_nullable (.inl personal),
        fromSql_null]
      exact ⟨none, rfl, rfl⟩
  | absent plain nullable none_ =>
      rw [if_neg (by rw [plain]; exact Bool.false_ne_true), defaultCell_of_nullable (.inr nullable),
        fromSql_null, wireForm_null]
      refine ⟨some .none, ?_, none_.symm⟩
      change (language.fromJson .null column.ty).map some = _
      rw [column.absent nullable]
      rfl
  | literal plain required renderable document =>
      rw [if_neg (by rw [plain]; exact Bool.false_ne_true),
        default_served lawful numerals plain required renderable document]
      unfold seedForm
      rw [wireForm_columnForm lawful (seed_holds required) renderable, column.reads]
      exact ⟨some column.seed, rfl, rfl⟩

/-- The literal that stands for the cell of a collection shows the seed. -/
theorem shown_default (collection : column.collection = true) {literal : String}
    (default : column.default = some literal) (kept : SeedKept spelling sqlite column) :
    (literalOf literal).shown spelling sqlite column.field = column.seedForm := by
  have document : column.field.kind.base = .json := by
    unfold FoldColumn.collection at collection
    generalize column.field.kind.base = base at collection
    cases base <;> first | rfl | cases collection
  cases kept with
  | personal personal =>
      rw [default_of_nullable (.inl personal)] at default
      cases default
  | absent plain nullable =>
      rw [default_of_nullable (.inr nullable)] at default
      cases default
  | literal plain required renderable kept =>
      rw [default_of_required plain required] at default
      obtain rfl := Option.some.inj default
      have other : column.field.kind.base ≠ .timestamp := by
        rw [document]
        exact nofun
      unfold seedForm
      rw [storedForm_of_ne other, columnForm_of_ne other]
      exact (document_spelt (column.documented document) (kept document)).shown plain document

end FoldColumn

/-! ## Operations -/

theorem mem_insertKey {key other : FoldKey} {keys : List FoldKey} :
    other ∈ insertKey key keys ↔ other = key ∨ other ∈ keys := by
  unfold insertKey
  by_cases known : key ∈ keys
  · rw [if_pos known]
    constructor
    · exact .inr
    · rintro (rfl | held)
      · exact known
      · exact held
  · rw [if_neg known, List.mem_append, List.mem_singleton, or_comm]

theorem mem_insertKeys {key : FoldKey} {places : List (String × FoldKey)} {keys : List FoldKey} :
    key ∈ places.foldl (fun keys place => insertKey place.2 keys) keys ↔
      key ∈ keys ∨ ∃ place ∈ places, place.2 = key := by
  induction places generalizing keys with
  | nil => simp
  | cons place rest ih =>
      rw [List.foldl_cons, ih, mem_insertKey, List.exists_mem_cons_iff, or_assoc, or_left_comm,
        eq_comm]

namespace FoldRows

variable {rows next : FoldRows spelling language} {column : FoldColumn spelling language}
  {name : String} {key : FoldKey} {value : Value language.Plain}

theorem column_of_mem (member : column ∈ rows.columns) : rows.column column.name = some column :=
  find?_of_nodup FoldColumn.name rows.distinct member

/-- A column that is named is one of the program's. -/
theorem mem_of_columnNamed (named : rows.columnNamed name = .ok column) :
    column ∈ rows.columns ∧ column.name = name := by
  unfold columnNamed at named
  cases found : rows.column name with
  | none =>
      rw [found] at named
      cases named
  | some held =>
      rw [found] at named
      obtain rfl := Except.ok.inj named
      exact ⟨List.mem_of_find?_eq_some found, by simpa using List.find?_some found⟩

theorem columnNamed_of_mem (member : column ∈ rows.columns) :
    rows.columnNamed column.name = .ok column := by
  unfold columnNamed
  rw [column_of_mem member]
  rfl

/-- Whether a replay keeps a column apart from the store. -/
def overlaid (rows : FoldRows spelling language) (name : String) : Bool :=
  rows.replay.any fun replay => !replay.only.contains name

/-! ## What the statements do -/

/-- A write sets one cell, and a key may come to be. -/
structure Wrote (rows next : FoldRows spelling language) (place : String × FoldKey) : Prop where
  columns : next.columns = rows.columns
  cells : next.cells = rows.cells
  replay : next.replay = rows.replay
  keys : ∀ side, rows.keys side ⊆ next.keys side
  pending : ∃ cell, next.pending = rows.pending.set place cell

theorem ensureRow_ok (ensured : rows.ensureRow sqlite key = .ok next) :
    next = { rows with keys := Function.update rows.keys false (insertKey key (rows.keys false)) } := by
  unfold ensureRow at ensured
  split at ensured
  · exact (Except.ok.inj ensured).symm
  · cases ensured

theorem write_ok (wrote : rows.write sqlite column key value = .ok next) :
    Wrote rows next (column.name, key) := by
  obtain ⟨ensured, present, wrote⟩ := bind_ok.mp wrote
  obtain ⟨cell, -, wrote⟩ := bind_ok.mp wrote
  obtain rfl := Except.ok.inj wrote
  unfold FoldRows.ensured at present
  by_cases collection : column.collection = true
  · rw [if_pos collection] at present
    obtain rfl := ensureRow_ok present
    refine ⟨rfl, rfl, rfl, ?_, cell, rfl⟩
    intro side other held
    by_cases main : side = false
    · subst main
      simpa using mem_insertKey.mpr (.inr held)
    · simpa [main] using held
  · rw [if_neg collection] at present
    obtain rfl := Except.ok.inj present
    exact ⟨rfl, rfl, rfl, fun _ => List.Subset.refl _, cell, rfl⟩

/-- What is set is a cell of the batch, or a value that a replay keeps apart. -/
theorem set_ok (set : rows.set sqlite name key value = .ok next) :
    (rows.overlaid name = false ∧ Wrote rows next (name, key)) ∨
      ∃ replay, rows.overlaid name = true ∧ rows.replay = some replay ∧
        next = { rows with replay := some { replay with
          values := fun other place =>
            if other = name ∧ place = key then some value else replay.values other place } } := by
  unfold FoldRows.set at set
  unfold overlaid
  cases named : rows.columnNamed name with
  | error why =>
      rw [named] at set
      cases set
  | ok column =>
      obtain ⟨-, same⟩ := mem_of_columnNamed named
      rw [named] at set
      cases replaying : rows.replay with
      | none =>
          rw [replaying] at set
          exact .inl ⟨rfl, same ▸ write_ok set⟩
      | some replay =>
          rw [replaying] at set
          dsimp only at set
          rw [Option.any_some]
          by_cases rebuilt : replay.only.contains name = true
          · rw [if_pos rebuilt] at set
            rw [rebuilt]
            exact .inl ⟨rfl, same ▸ write_ok set⟩
          · rw [if_neg rebuilt] at set
            rw [Bool.not_eq_true] at rebuilt
            rw [rebuilt]
            exact .inr ⟨replay, rfl, rfl, (Except.ok.inj set).symm⟩

/-- A flush writes the cells that the batch holds, each into a row that there is then. -/
structure Flushed (rows next : FoldRows spelling language) : Prop where
  columns : next.columns = rows.columns
  replay : next.replay = rows.replay
  cells : ∀ name key, next.cells name key = (rows.pending.get (name, key)).getD (rows.cells name key)
  keys : ∀ side, rows.keys side ⊆ next.keys side
  born : ∀ name key cell, rows.pending.get (name, key) = some cell → key ∈ next.keys (rows.inSide name)
  pending : next.pending = ∅

theorem flush_ok (flushed : rows.flush sqlite = .ok next) : Flushed rows next := by
  unfold flush at flushed
  split at flushed
  · obtain rfl := Except.ok.inj flushed
    refine ⟨rfl, rfl, fun _ _ => rfl, ?_, ?_, rfl⟩
    · intro side key held
      exact mem_insertKeys.mpr (.inl held)
    · intro name key cell held
      refine mem_insertKeys.mpr (.inr ⟨(name, key), List.mem_filter.mpr ⟨?_, ?_⟩, rfl⟩)
      · exact (Table.mem_keys_iff _ _).mpr ⟨cell, held⟩
      · exact beq_self_eq_true _
  · cases flushed

theorem mem_declared {other : FoldColumn spelling language} :
    other ∈ (rows.declared column).columns ↔
      other = column ∨ other ∈ rows.columns ∧ other.name ≠ column.name := by
  unfold declared drop
  rw [List.mem_append, List.mem_singleton, List.mem_filter, or_comm, bne_iff_ne]

/-- A column that is added is left as it was, or is its default everywhere. -/
theorem addColumn_ok (added : rows.addColumn sqlite column = .ok next) :
    (rows.hasColumn column = true ∧ next = rows.declared column) ∨
      (rows.hasColumn column = false ∧
        next = { rows.declared column with cells := rows.refilled sqlite column }) := by
  unfold addColumn at added
  by_cases known : rows.hasColumn column = true
  · rw [if_pos known] at added
    exact .inl ⟨known, (Except.ok.inj added).symm⟩
  · rw [if_neg known] at added
    rw [Bool.not_eq_true] at known
    split at added
    · exact .inr ⟨known, (Except.ok.inj added).symm⟩
    · cases added

/-- A column that is reset is its default for every key there is. -/
theorem resetColumn_ok (reset : rows.resetColumn sqlite name = .ok next) :
    ∃ column ∈ rows.columns, column.name = name ∧
      next = { rows with
        cells := fun other key =>
          if key ∈ rows.keys column.collection then rows.refilled sqlite column other key
          else rows.cells other key } := by
  obtain ⟨column, named, reset⟩ := bind_ok.mp reset
  obtain ⟨member, same⟩ := mem_of_columnNamed named
  dsimp only at reset
  split at reset
  · exact ⟨column, member, same, (Except.ok.inj reset).symm⟩
  · cases reset

theorem inSide_of_mem (member : column ∈ rows.columns) :
    rows.inSide column.name = column.collection := by
  unfold inSide
  rw [column_of_mem member, Option.any_some]

end FoldRows

/-! ## Cells that are their defaults -/

variable {rows : FoldRows spelling language} {column : FoldColumn spelling language} {key : FoldKey}

/-- A cell that is its default is accumulated onto as the seed, whether its row is
there or not. -/
theorem FoldRows.stored_default (lawful : spelling.Lawful) (numerals : Numerals spelling)
    (kept : SeedKept spelling sqlite column) (pending : rows.pending.get (column.name, key) = none)
    (cell : rows.cells column.name key = column.defaultCell sqlite) :
    ∃ found, rows.stored column key = .ok found ∧ found.getD column.seed = column.seed := by
  unfold FoldRows.stored
  rw [pending]
  dsimp only
  by_cases born : key ∈ rows.keys column.collection
  · rw [if_pos born, cell]
    exact FoldColumn.decoded_default lawful numerals kept
  · rw [if_neg born]
    exact ⟨none, rfl, rfl⟩

/-- And served as the seed. -/
theorem FoldRows.served_default (lawful : spelling.Lawful) (numerals : Numerals spelling)
    (kept : SeedKept spelling sqlite column)
    (cell : rows.cells column.name key = column.defaultCell sqlite) (keystore : Option KeyStore) :
    rows.served sqlite keystore column key = .ok column.seedForm := by
  have shown := FoldColumn.rendered_default lawful numerals kept keystore
  unfold FoldRows.served
  by_cases beside : (column.collection && !(rows.keys true).contains key) = true
  · rw [if_pos beside]
    rw [Bool.and_eq_true] at beside
    cases default : column.default with
    | none =>
        have empty : column.defaultCell sqlite = .null := by
          unfold FoldColumn.defaultCell
          rw [default]
          rfl
        rw [empty] at shown
        exact shown
    | some literal =>
        dsimp only
        rw [FoldColumn.shown_default beside.1 default kept]
  · rw [if_neg beside, cell]
    exact shown

/-! ## Following the arms -/

/-- The tables, with the cells that arms have set, and the values that a replay has
kept apart. -/
structure Following (spelling : Spelling) (language : Heklang) where
  rows : FoldRows spelling language
  fired : List (String × FoldKey) := []
  apart : List (String × FoldKey) := []

/-- What happens to the tables of a key signature: arms set cells, a batch is
flushed, a deploy changes a column, and a backfill replays the log. -/
inductive FoldAct (spelling : Spelling) (language : Heklang) where
  | set (name : String) (key : FoldKey) (value : Value language.Plain)
  | flush
  | addColumn (column : FoldColumn spelling language)
  | resetColumn (name : String)
  | dropColumn (name : String)
  | replay (only : List String)
  | replayed

namespace Following

/-- Between batches, and not within a replay. -/
def settled (state : Following spelling language) : Bool :=
  state.rows.pending.entries.isEmpty && state.rows.replay.isNone

/-- A deploy acts between batches only. -/
def deploy (state : Following spelling language) (result : Option (Following spelling language)) :
    Option (Following spelling language) :=
  if state.settled then result else none

/-- The cells set of the other columns. -/
def without (name : String) (fired : List (String × FoldKey)) : List (String × FoldKey) :=
  fired.filter fun place => place.1 != name

variable (sqlite) in
def step (state : Following spelling language) :
    FoldAct spelling language → Option (Following spelling language)
  | .set name key value =>
      (state.rows.set sqlite name key value).toOption.map fun rows =>
        if state.rows.overlaid name then { state with rows, apart := (name, key) :: state.apart }
        else { state with rows, fired := (name, key) :: state.fired }
  | .flush => (state.rows.flush sqlite).toOption.map fun rows => { state with rows }
  | .addColumn column =>
      state.deploy <| (state.rows.addColumn sqlite column).toOption.map fun rows =>
        if state.rows.hasColumn column then { state with rows }
        else { state with rows, fired := without column.name state.fired }
  | .resetColumn name =>
      state.deploy <| (state.rows.resetColumn sqlite name).toOption.map fun rows =>
        { state with rows, fired := without name state.fired }
  | .dropColumn name => state.deploy <| some { state with rows := state.rows.drop name }
  | .replay only =>
      state.deploy <| some
        { state with rows := { state.rows with replay := some { only } }, apart := [] }
  | .replayed =>
      if state.rows.pending.entries.isEmpty then
        some { state with rows := { state.rows with replay := none } }
      else none

/-- A program's tables before their first record. -/
def start (sqlite : Sqlite) (source : String) (columns : List (FoldColumn spelling language))
    (distinct : (columns.map FoldColumn.name).Nodup) : Following spelling language where
  rows := .start sqlite source columns distinct

/-- No arm has set a cell, or none has in what is replayed. -/
def Unfired (state : Following spelling language) (name : String) (key : FoldKey) : Prop :=
  if state.rows.overlaid name then (name, key) ∉ state.apart else (name, key) ∉ state.fired

instance (state : Following spelling language) (name : String) (key : FoldKey) :
    Decidable (state.Unfired name key) :=
  inferInstanceAs (Decidable (if state.rows.overlaid name then _ else _))

variable (sqlite) in
/-- A column is not put over one of its name that was made with another default. -/
def Fresh (state : Following spelling language) : FoldAct spelling language → Prop
  | .addColumn column => ∀ held, state.rows.column column.name = some held →
      held.collection = column.collection → held.defaultCell sqlite = column.defaultCell sqlite
  | _ => True

end Following

/-! ## What every step keeps -/

variable (sqlite) in
/-- The cells of no row yet, and those that no arm has set, are their defaults. -/
structure Seeded (state : Following spelling language) : Prop where
  unborn : ∀ column ∈ state.rows.columns, ∀ key, key ∉ state.rows.keys column.collection →
    state.rows.cells column.name key = column.defaultCell sqlite
  stored : ∀ column ∈ state.rows.columns, ∀ key, (column.name, key) ∉ state.fired →
    state.rows.cells column.name key = column.defaultCell sqlite
  held : ∀ place, place ∉ state.fired → state.rows.pending.get place = none
  apart : ∀ replay, state.rows.replay = some replay → ∀ name key, (name, key) ∉ state.apart →
    replay.values name key = none

namespace Following

variable {state next : Following spelling language} {name : String}

theorem start_seeded (source : String) (columns : List (FoldColumn spelling language))
    (distinct : (columns.map FoldColumn.name).Nodup) : Seeded sqlite (start sqlite source columns distinct) := by
  have cell (column : FoldColumn spelling language) (member : column ∈ columns) (key : FoldKey) :
      (start sqlite source columns distinct).rows.cells column.name key = column.defaultCell sqlite := by
    change (columns.find? fun held => held.name == column.name).elim Cell.null _ = _
    rw [find?_of_nodup FoldColumn.name distinct member, Option.elim_some]
  exact ⟨fun column member key _ => cell column member key, fun column member key _ => cell column member key,
    fun _ _ => rfl, nofun⟩

/-- Between batches nothing is held. -/
theorem get_of_flushed {rows : FoldRows spelling language}
    (flushed : rows.pending.entries.isEmpty = true) (place : String × FoldKey) :
    rows.pending.get place = none := by
  rw [List.isEmpty_iff] at flushed
  cases held : rows.pending.get place with
  | none => rfl
  | some cell =>
      have member := (Table.get_eq_some_iff _ _ _).mp held
      rw [flushed] at member
      cases member

theorem deploy_some {result : Option (Following spelling language)}
    (taken : state.deploy result = some next) :
    (∀ place, state.rows.pending.get place = none) ∧ state.rows.replay = none ∧ result = some next := by
  unfold deploy at taken
  by_cases settled : state.settled = true
  · rw [if_pos settled] at taken
    rw [Following.settled, Bool.and_eq_true, Option.isNone_iff_eq_none] at settled
    exact ⟨get_of_flushed settled.1, settled.2, taken⟩
  · rw [if_neg settled] at taken
    cases taken

theorem mem_without {place : String × FoldKey} {fired : List (String × FoldKey)} :
    place ∈ without name fired ↔ place ∈ fired ∧ place.1 ≠ name := by
  unfold without
  rw [List.mem_filter, bne_iff_ne]

/-- An arm's cell is one that has been set from there on. -/
theorem set_seeded {value : Value language.Plain} (seeded : Seeded sqlite state)
    (taken : step sqlite state (.set name key value) = some next) : Seeded sqlite next := by
  obtain ⟨rows, ok, taken⟩ := Option.map_eq_some_iff.mp taken
  rw [toOption_ok] at ok
  rcases FoldRows.set_ok ok with ⟨direct, wrote⟩ | ⟨replay, overlaid, replaying, rfl⟩
  · rw [direct] at taken
    obtain rfl := taken
    refine ⟨?_, ?_, ?_, ?_⟩
    · intro column member other absent
      change rows.cells column.name other = _
      rw [wrote.cells]
      exact seeded.unborn column (wrote.columns ▸ member) other fun held => absent (wrote.keys _ held)
    · intro column member other unset
      change rows.cells column.name other = _
      rw [wrote.cells]
      exact seeded.stored column (wrote.columns ▸ member) other fun held => unset (List.mem_cons_of_mem _ held)
    · intro place unset
      obtain ⟨cell, pending⟩ := wrote.pending
      have other : place ≠ (name, key) := fun same => unset (same ▸ List.mem_cons_self)
      change rows.pending.get place = none
      rw [pending, Table.get_set, if_neg other]
      exact seeded.held place fun held => unset (List.mem_cons_of_mem _ held)
    · intro replay replaying
      exact seeded.apart replay (wrote.replay ▸ replaying)
  · rw [overlaid] at taken
    obtain rfl := taken
    refine ⟨seeded.unborn, seeded.stored, seeded.held, ?_⟩
    intro later replayed other place unset
    obtain rfl := Option.some.inj replayed
    have elsewhere : ¬(other = name ∧ place = key) := by
      rintro ⟨rfl, rfl⟩
      exact unset List.mem_cons_self
    dsimp only
    rw [if_neg elsewhere]
    exact seeded.apart replay replaying other place fun held => unset (List.mem_cons_of_mem _ held)

/-- A flush leaves the cells that the batch has not set. -/
theorem flush_seeded (seeded : Seeded sqlite state) (taken : step sqlite state .flush = some next) :
    Seeded sqlite next := by
  obtain ⟨rows, ok, rfl⟩ := Option.map_eq_some_iff.mp taken
  rw [toOption_ok] at ok
  have flushed := FoldRows.flush_ok ok
  have left {column : FoldColumn spelling language} {other : FoldKey}
      (unset : state.rows.pending.get (column.name, other) = none) :
      rows.cells column.name other = state.rows.cells column.name other := by
    rw [flushed.cells, unset, Option.getD_none]
  refine ⟨?_, ?_, ?_, ?_⟩
  · intro column member other absent
    have known : column ∈ state.rows.columns := flushed.columns ▸ member
    have unset : state.rows.pending.get (column.name, other) = none := by
      cases held : state.rows.pending.get (column.name, other) with
      | none => rfl
      | some cell =>
          have born := flushed.born _ _ _ held
          rw [FoldRows.inSide_of_mem known] at born
          exact absurd born absent
    exact (left unset).trans (seeded.unborn column known other fun held => absent (flushed.keys _ held))
  · intro column member other unset
    exact (left (seeded.held _ unset)).trans
      (seeded.stored column (flushed.columns ▸ member) other unset)
  · intro place _
    change rows.pending.get place = none
    rw [flushed.pending, Table.get_empty]
  · intro replay replaying
    exact seeded.apart replay (flushed.replay ▸ replaying)

/-- A column that is added is its default, or the one that was there. -/
theorem addColumn_seeded {added : FoldColumn spelling language} (seeded : Seeded sqlite state)
    (fresh : Fresh sqlite state (.addColumn added))
    (taken : step sqlite state (.addColumn added) = some next) : Seeded sqlite next := by
  obtain ⟨empty, replay, taken⟩ := deploy_some taken
  obtain ⟨rows, ok, taken⟩ := Option.map_eq_some_iff.mp taken
  rw [toOption_ok] at ok
  rcases FoldRows.addColumn_ok ok with ⟨known, rfl⟩ | ⟨other, rfl⟩
  · rw [if_pos known] at taken
    obtain rfl := taken
    obtain ⟨held, found, same⟩ := (Option.any_eq_true _ _).mp known
    have collection : held.collection = added.collection := by simpa using same
    have member : held ∈ state.rows.columns := List.mem_of_find?_eq_some found
    have name : held.name = added.name := by simpa using List.find?_some found
    have default := fresh held found collection
    refine ⟨?_, ?_, fun place _ => empty place, seeded.apart⟩
    · intro column declared key absent
      rcases FoldRows.mem_declared.mp declared with rfl | ⟨kept, -⟩
      · rw [← name, ← default]
        exact seeded.unborn held member key (collection ▸ absent)
      · exact seeded.unborn column kept key absent
    · intro column declared key unset
      rcases FoldRows.mem_declared.mp declared with rfl | ⟨kept, -⟩
      · rw [← name, ← default]
        exact seeded.stored held member key (name ▸ unset)
      · exact seeded.stored column kept key unset
  · rw [if_neg (by rw [other]; exact Bool.false_ne_true)] at taken
    obtain rfl := taken
    refine ⟨?_, ?_, fun place _ => empty place, seeded.apart⟩
    · intro column declared key absent
      rcases FoldRows.mem_declared.mp declared with rfl | ⟨kept, name⟩
      · exact if_pos rfl
      · exact (if_neg name).trans (seeded.unborn column kept key absent)
    · intro column declared key unset
      rcases FoldRows.mem_declared.mp declared with rfl | ⟨kept, name⟩
      · exact if_pos rfl
      · exact (if_neg name).trans
          (seeded.stored column kept key fun held => unset (mem_without.mpr ⟨held, name⟩))

/-- A column that is reset is its default, for the keys there are and for the others. -/
theorem resetColumn_seeded (seeded : Seeded sqlite state)
    (taken : step sqlite state (.resetColumn name) = some next) : Seeded sqlite next := by
  obtain ⟨empty, replay, taken⟩ := deploy_some taken
  obtain ⟨rows, ok, rfl⟩ := Option.map_eq_some_iff.mp taken
  rw [toOption_ok] at ok
  obtain ⟨reset, member, rfl, rfl⟩ := FoldRows.resetColumn_ok ok
  have other {column : FoldColumn spelling language} (apart : column.name ≠ reset.name) (key : FoldKey) :
      (if key ∈ state.rows.keys reset.collection then state.rows.refilled sqlite reset column.name key
        else state.rows.cells column.name key) = state.rows.cells column.name key := by
    unfold FoldRows.refilled
    rw [if_neg apart, ite_self]
  have same (key : FoldKey) :
      (if key ∈ state.rows.keys reset.collection then state.rows.refilled sqlite reset reset.name key
        else state.rows.cells reset.name key) = reset.defaultCell sqlite := by
    by_cases born : key ∈ state.rows.keys reset.collection
    · rw [if_pos born]
      exact if_pos rfl
    · rw [if_neg born]
      exact seeded.unborn reset member key born
  have alone {column : FoldColumn spelling language} (held : column ∈ state.rows.columns)
      (name : column.name = reset.name) : column = reset := by
    have found := FoldRows.column_of_mem held
    rw [name, FoldRows.column_of_mem member] at found
    exact (Option.some.inj found).symm
  refine ⟨?_, ?_, fun place _ => empty place, seeded.apart⟩
  · intro column held key absent
    by_cases name : column.name = reset.name
    · obtain rfl := alone held name
      exact same key
    · exact (other name key).trans (seeded.unborn column held key absent)
  · intro column held key unset
    by_cases name : column.name = reset.name
    · obtain rfl := alone held name
      exact same key
    · exact (other name key).trans
        (seeded.stored column held key fun fired => unset (mem_without.mpr ⟨fired, name⟩))

/-- Every step keeps the cells that no arm has set. -/
theorem step_seeded {act : FoldAct spelling language} (seeded : Seeded sqlite state)
    (fresh : Fresh sqlite state act) (taken : step sqlite state act = some next) : Seeded sqlite next := by
  cases act with
  | set name key value => exact set_seeded seeded taken
  | flush => exact flush_seeded seeded taken
  | addColumn column => exact addColumn_seeded seeded fresh taken
  | resetColumn name => exact resetColumn_seeded seeded taken
  | dropColumn name =>
      obtain ⟨-, -, taken⟩ := deploy_some taken
      obtain rfl := Option.some.inj taken
      exact ⟨fun column member => seeded.unborn column (List.mem_of_mem_filter member),
        fun column member => seeded.stored column (List.mem_of_mem_filter member), seeded.held, seeded.apart⟩
  | replay only =>
      obtain ⟨-, -, taken⟩ := deploy_some taken
      obtain rfl := Option.some.inj taken
      refine ⟨seeded.unborn, seeded.stored, seeded.held, ?_⟩
      intro replay started name key _
      obtain rfl := Option.some.inj started
      rfl
  | replayed =>
      change (if state.rows.pending.entries.isEmpty then _ else none) = some next at taken
      split at taken
      · obtain rfl := Option.some.inj taken
        exact ⟨seeded.unborn, seeded.stored, seeded.held, nofun⟩
      · cases taken

/-- A cell that no arm has set is accumulated onto as the seed. -/
theorem value_unfired (lawful : spelling.Lawful) (numerals : Numerals spelling)
    (seeded : Seeded sqlite state) {column : FoldColumn spelling language}
    (member : column ∈ state.rows.columns) (kept : SeedKept spelling sqlite column) {key : FoldKey}
    (unfired : state.Unfired column.name key) :
    ∃ found, state.rows.value column.name key = .ok found ∧ found.getD column.seed = column.seed := by
  have stored (unset : (column.name, key) ∉ state.fired) :=
    FoldRows.stored_default lawful numerals kept (seeded.held _ unset) (seeded.stored column member key unset)
  unfold Unfired FoldRows.overlaid at unfired
  unfold FoldRows.value
  rw [FoldRows.columnNamed_of_mem member]
  cases replaying : state.rows.replay with
  | none =>
      rw [replaying] at unfired
      exact stored unfired
  | some replay =>
      rw [replaying, Option.any_some] at unfired
      dsimp only
      by_cases rebuilt : replay.only.contains column.name = true
      · rw [if_pos rebuilt]
        rw [rebuilt] at unfired
        exact stored unfired
      · rw [if_neg rebuilt]
        rw [Bool.not_eq_true] at rebuilt
        rw [rebuilt] at unfired
        exact ⟨none, by rw [seeded.apart replay replaying _ _ unfired], rfl⟩

end Following

open Following in
/-- In every run of arms, flushes, backfills and deploys, a cell that no arm has set
reads as its fold's seed, for the arm that comes next and for a reader, where its
column's default holds the seed. -/
theorem unfired_reads_seed (spelling : Spelling) (lawful : spelling.Lawful) (numerals : Numerals spelling)
    (language : Heklang) (sqlite : Sqlite) (source : String)
    (columns : List (FoldColumn spelling language)) (distinct : (columns.map FoldColumn.name).Nodup)
    (actions : List (FoldAct spelling language)) (state : Following spelling language)
    (guarded : Guarded (step sqlite) (Fresh sqlite) (start sqlite source columns distinct) actions)
    (ran : run (step sqlite) (start sqlite source columns distinct) actions = some state)
    (column : FoldColumn spelling language) (member : column ∈ state.rows.columns)
    (kept : SeedKept spelling sqlite column) (key : FoldKey) :
    (state.Unfired column.name key →
      ∃ found, state.rows.value column.name key = .ok found ∧ found.getD column.seed = column.seed) ∧
    ((column.name, key) ∉ state.fired →
      ∀ keystore, state.rows.served sqlite keystore column key = .ok column.seedForm) := by
  have seeded : Seeded sqlite state :=
    run_invariant_of_guarded (Seeded sqlite) (fun _ _ _ kept fresh taken => step_seeded kept fresh taken)
      (start_seeded source columns distinct) guarded ran
  refine ⟨value_unfired lawful numerals seeded member kept, ?_⟩
  intro unset keystore
  exact FoldRows.served_default lawful numerals kept (seeded.stored column member key unset) keystore

/-! ## A board of tasks -/

/-- The literals of texts only, as the database has them. -/
def texts : Sqlite where
  text numeral := numeral
  number numeral := .num numeral

/-- Who a task is with, which is nobody at first. -/
def holder : FoldColumn fortyTwo optionalDocuments where
  name := "holder"
  field := { kind := .text none }
  ty := false
  seed := .plain (.str "")
  fits := .plain _ rfl (.text none "")
  reads := rfl
  documented := nofun
  unsealed := fun personal => absurd rfl personal
  absent := nofun

/-- Where a task stands. -/
def standing : FoldColumn fortyTwo optionalDocuments where
  name := "standing"
  field := { kind := .text none }
  ty := false
  seed := .plain (.str "free")
  fits := .plain _ rfl (.text none "free")
  reads := rfl
  documented := nofun
  unsealed := fun personal => absurd rfl personal
  absent := nofun

/-- Where a task stands, if it still does. -/
def standingStill : FoldColumn fortyTwo optionalDocuments where
  name := "standing"
  field := { kind := .optional (.text none) }
  ty := true
  seed := .some (.plain (.str "free"))
  fits := .some _ rfl (.text none "free")
  reads := rfl
  documented := nofun
  unsealed := fun personal => absurd rfl personal
  absent := fun _ => rfl

/-- A task is taken, which mints its row. -/
def taking : List (FoldAct fortyTwo optionalDocuments) :=
  [.set "holder" ["mop"] (.plain (.str "kim")), .flush]

open Following in
/-- A seed that is present is lost to an optional fold, once another has minted its row. -/
theorem optional_seed_lost : ¬ ∀ (spelling : Spelling), spelling.Lawful → Numerals spelling →
    ∀ (language : Heklang) (sqlite : Sqlite) (source : String)
      (columns : List (FoldColumn spelling language)) (distinct : (columns.map FoldColumn.name).Nodup)
      (actions : List (FoldAct spelling language)) (state : Following spelling language),
      Guarded (step sqlite) (Fresh sqlite) (start sqlite source columns distinct) actions →
      run (step sqlite) (start sqlite source columns distinct) actions = some state →
      ∀ column ∈ state.rows.columns, ∀ key,
        (state.Unfired column.name key →
          ∃ found, state.rows.value column.name key = .ok found ∧
            found.getD column.seed = column.seed) ∧
        ((column.name, key) ∉ state.fired →
          ∀ keystore, state.rows.served sqlite keystore column key = .ok column.seedForm) := by
  intro claimed
  obtain ⟨found, value, same⟩ := (claimed fortyTwo fortyTwo_lawful fortyTwo_numerals optionalDocuments texts
    "board" [holder, standingStill] (by decide) taking _
    (.of_forall (by simp [taking, Fresh])) rfl standingStill (.tail _ (.head _)) ["mop"]).1
    (by decide)
  have read : found = some .none := (Except.ok.inj value).symm
  rw [read] at same
  cases same

open Following in
/-- A task that has only been taken stands where it stood. -/
theorem unfired_reads_seed_of_taken :
    ∃ state, run (step texts) (start texts "board" [holder, standing] (by decide)) taking = some state ∧
      ["mop"] ∈ state.rows.keys false ∧
      state.rows.served texts none standing ["mop"] = .ok (.str "free") := by
  refine ⟨_, rfl, by decide, ?_⟩
  exact (unfired_reads_seed fortyTwo fortyTwo_lawful fortyTwo_numerals optionalDocuments texts "board"
    [holder, standing] (by decide) taking _ (.of_forall (by simp [taking, Fresh])) rfl standing
    (.tail _ (.head _)) (.literal rfl rfl nofun nofun) ["mop"]).2 (by decide) none

end Hekla.Language
