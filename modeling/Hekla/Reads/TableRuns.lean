import Hekla.Library.Stretch
import Hekla.Reads.TablePages
import Hekla.Reads.TableParams

/-!
# Pages as runs of one order

The rows that a scan leaves stand together in the order that it walks, so that a page
is a run of it.  A scan that asks for no order is read by the key, which its filter
need not lead; its page is then a run of what the filter leaves, and that stands
together in the order that serves it.
-/

namespace Hekla.Reads.Tables

open Hekla.Library Hekla.Host
open Hekla.Derived (FieldKind IndexDef)

variable {spelling : Spelling} {isUuid : String → Bool} {codec : Codec Cursor}
  {tables : List TableDef} {sel : Selection} {scan : Scan} {table : TableDef}

/-! ## The conditions of a filter -/

theorem pinned_asks {kindOf : String → Except String FieldKind} {given : String × String}
    {condition : Condition String} (made : pinned spelling kindOf given = .ok condition) :
    ∃ bound, condition = .compares [given.1] .eq [bound] := by
  obtain ⟨kind, -, made⟩ := bind_ok.mp made
  obtain ⟨cell, -, made⟩ := bind_ok.mp made
  exact ⟨cell, (Except.ok.inj made).symm⟩

theorem bounded_asks {kindOf : String → Except String FieldKind} {ranged : Option (String × Range)}
    {conditions : List (Condition String)} (made : boundedAny spelling kindOf ranged = .ok conditions) :
    ∀ condition ∈ conditions, ∃ range, ranged = some range ∧ condition.Asks range.1 := by
  intro condition member
  cases ranged with
  | none =>
      cases made
      cases member
  | some range =>
      obtain ⟨kind, -, made⟩ := bind_ok.mp made
      obtain ⟨bound, -, read⟩ := (mem_of_mapM_ok made condition).mp member
      obtain ⟨cell, -, rfl⟩ := map_ok.mp read
      exact ⟨range, rfl, .compares _ _⟩

/-- What a scan's filter asks is asked of one column each, and what it pins is fixed. -/
structure Filters (scan : Scan) (conditions : List (Condition String)) : Prop where
  fixed : ∀ column ∈ scan.equals.map Prod.fst ++ scan.values.map Prod.fst,
    ∃ bound, .compares [column] .eq [bound] ∈ conditions
  asks : ∀ condition ∈ conditions, ∃ column, condition.Asks column ∧
    (column ∈ scan.equals.map Prod.fst ++ scan.values.map Prod.fst ∨
      scan.range.map Prod.fst = some column ∨ scan.valueRange.map Prod.fst = some column ∨
      scan.order.map Order.column = some column)

/-- What a scan filters by. -/
theorem mem_filterOf (sound : Sound spelling table scan) {condition : Condition String} :
    condition ∈ filterOf spelling table scan ↔
      (∃ given ∈ scan.equals, pinned spelling (partKind table) given = .ok condition) ∨
      (∃ conditions, boundedAny spelling (partKind table) scan.range = .ok conditions ∧ condition ∈ conditions) ∨
      (∃ given ∈ scan.values, pinned spelling (columnKind table) given = .ok condition) ∨
      (∃ conditions, boundedAny spelling (columnKind table) scan.valueRange = .ok conditions ∧
        condition ∈ conditions) ∨ condition ∈ presence scan.order := by
  have made := filterConditions_eq sound
  unfold filterConditions at made
  obtain ⟨equals, one, made⟩ := bind_ok.mp made
  obtain ⟨range, two, made⟩ := bind_ok.mp made
  obtain ⟨values, three, made⟩ := bind_ok.mp made
  obtain ⟨valueRange, four, made⟩ := bind_ok.mp made
  rw [← Except.ok.inj made]
  simp [mem_of_mapM_ok one, mem_of_mapM_ok three, two, four]

theorem pinned_of_sound (sound : Sound spelling table scan) :
    (∀ given ∈ scan.equals, ∃ condition, pinned spelling (partKind table) given = .ok condition) ∧
      ∀ given ∈ scan.values, ∃ condition, pinned spelling (columnKind table) given = .ok condition := by
  obtain ⟨equals, one, made⟩ := bind_ok.mp (filterConditions_eq sound)
  obtain ⟨range, -, made⟩ := bind_ok.mp made
  obtain ⟨values, three, -⟩ := bind_ok.mp made
  exact ⟨fun _ member => ok_of_mapM_ok one member, fun _ member => ok_of_mapM_ok three member⟩

theorem filters_of_sound (sound : Sound spelling table scan) :
    Filters scan (filterOf spelling table scan) := by
  obtain ⟨equals, values⟩ := pinned_of_sound sound
  constructor
  · intro column member
    rcases List.mem_append.mp member with part | fold
    · obtain ⟨given, pinned, rfl⟩ := List.mem_map.mp part
      obtain ⟨condition, read⟩ := equals given pinned
      obtain ⟨bound, rfl⟩ := pinned_asks read
      exact ⟨bound, (mem_filterOf sound).mpr (.inl ⟨given, pinned, read⟩)⟩
    · obtain ⟨given, pinned, rfl⟩ := List.mem_map.mp fold
      obtain ⟨condition, read⟩ := values given pinned
      obtain ⟨bound, rfl⟩ := pinned_asks read
      exact ⟨bound, (mem_filterOf sound).mpr (.inr (.inr (.inl ⟨given, pinned, read⟩)))⟩
  · intro condition member
    rcases (mem_filterOf sound).mp member with ⟨given, pinned, read⟩ | ⟨conditions, read, ranged⟩ |
      ⟨given, pinned, read⟩ | ⟨conditions, read, bounded⟩ | present
    · obtain ⟨bound, rfl⟩ := pinned_asks read
      exact ⟨_, .compares _ _, .inl (List.mem_append_left _ (List.mem_map_of_mem pinned))⟩
    · obtain ⟨range, same, asks⟩ := bounded_asks read condition ranged
      exact ⟨_, asks, .inr (.inl (by rw [same]; rfl))⟩
    · obtain ⟨bound, rfl⟩ := pinned_asks read
      exact ⟨_, .compares _ _, .inl (List.mem_append_right _ (List.mem_map_of_mem pinned))⟩
    · obtain ⟨range, same, asks⟩ := bounded_asks read condition bounded
      exact ⟨_, asks, .inr (.inr (.inl (by rw [same]; rfl)))⟩
    · obtain ⟨order, same, rfl⟩ := List.mem_map.mp present
      exact ⟨_, .present, .inr (.inr (.inr (by rw [Option.mem_toList.mp same]; rfl)))⟩

/-- Where an `@index` is walked, what is asked fixes what leads it. -/
theorem Walks.fixes {sort : SortDef} {reading : Reading} (walks : Walks sort reading.asked)
    (unranged : reading.asked.part = none) {descending : Bool} {after : Option After}
    {conditions : List (Condition String)}
    (filters : Filters { reading.scan with order := some ⟨sort.column, descending⟩, after := after } conditions)
    (rest : List String) : Fixes (sort.lead ++ sort.values) (sort.column :: rest) conditions := by
  obtain ⟨fixed, asks⟩ := filters
  have folds {column : String} (member : column ∈ sort.values) : column ∈ reading.asked.folds := by
    rcases walks.2 with ⟨perm, -⟩ | ⟨perm, -⟩
    · exact perm.mem_iff.mp (List.mem_append_left _ member)
    · exact perm.mem_iff.mp member
  have fold {column : String} (member : column ∈ reading.asked.folds) :
      column ∈ sort.values ∨ column = sort.column := by
    rcases walks.2 with ⟨perm, -⟩ | ⟨perm, -⟩
    · simpa using perm.mem_iff.mpr member
    · exact .inl (perm.mem_iff.mpr member)
  constructor
  · intro column member
    refine fixed column (List.mem_append.mpr ?_)
    exact (List.mem_append.mp member).imp walks.1.mem_iff.mp folds
  · intro condition member
    obtain ⟨column, asked, placed⟩ := asks condition member
    refine ⟨column, asked, ?_⟩
    rcases placed with pinned | ranged | bounded | ordered
    · rcases List.mem_append.mp pinned with part | value
      · exact .inl (List.mem_append_left _ (walks.1.mem_iff.mpr part))
      · exact (fold value).imp (List.mem_append_right _) fun same => by rw [same]; rfl
    · cases unranged.symm.trans ranged
    · right
      rcases walks.2 with ⟨-, none_⟩ | ⟨-, same⟩
      · cases none_.symm.trans bounded
      · rw [same column bounded]
        rfl
    · exact .inr ordered

/-- Where a seek leads an order, what is asked fixes what it leads. -/
theorem Leads.fixes {columns : List String} {reading : Reading}
    (led : Leads columns reading.asked.parts reading.asked.part) (unfiltered : reading.asked.folds = [])
    (unbounded : reading.asked.fold = none) {after : Option After} {conditions : List (Condition String)}
    (filters : Filters { reading.scan with order := none, after := after } conditions) (more : List String) :
    ∃ run rest, columns ++ more = run ++ rest ∧ Fixes run rest conditions := by
  obtain ⟨run, rest, rfl, perm, next⟩ := led
  obtain ⟨fixed, asks⟩ := filters
  refine ⟨run, rest ++ more, List.append_assoc _ _ _, ?_, ?_⟩
  · intro column member
    exact fixed column (List.mem_append_left _ (perm.mem_iff.mp member))
  · intro condition member
    obtain ⟨column, asked, placed⟩ := asks condition member
    refine ⟨column, asked, ?_⟩
    rcases placed with pinned | ranged | bounded | ordered
    · rcases List.mem_append.mp pinned with part | value
      · exact .inl (perm.mem_iff.mpr part)
      · rw [show reading.scan.values.map Prod.fst = [] from unfiltered] at value
        cases value
    · exact .inr (by rw [List.head?_append, next column ranged]; rfl)
    · cases unbounded.symm.trans bounded
    · cases ordered

/-! ## The order of an index -/

/-- The rows of a table in the order of some columns, and then of the key. -/
def walked (table : TableDef) (columns : List String) (descending : Bool) (rows : List Row) : List Row :=
  Statement.sorted [] (columns ++ table.keyColumns) descending rows

/-- The parts of the key before the key say no more than the key does. -/
theorem keyed_lt_iff {one other : Row} {kept : String → Bool}
    (alike : ∀ column, kept column = false → one column = other column) :
    ((table.key.map Prod.fst).filter kept ++ table.keyColumns).map one <
        ((table.key.map Prod.fst).filter kept ++ table.keyColumns).map other ↔
      table.keyColumns.map one < table.keyColumns.map other := by
  cases keyed : table.key with
  | nil => rfl
  | cons part rest =>
      have listed : table.keyColumns = table.key.map Prod.fst := by
        unfold TableDef.keyColumns
        rw [keyed]
        rfl
      rw [← keyed, listed, append_lt_iff, map_filter_lt fun column _ => alike column]
      exact or_iff_left_of_imp And.right

/-! ## What a page is a run of -/

section Pages

variable {rows : List Row}

/-- What a scan matches is a run of what its filter leaves. -/
theorem matching_stretch (sound : Sound spelling table scan)
    (distinct : (rows.map fun row => table.keyColumns.map row).Nodup)
    (holds : ∀ row ∈ rows, table.Holds spelling row) :
    matching spelling table scan rows <:+:
      Statement.sorted (filterOf spelling table scan) (orderColumns table scan.order) (descends scan.order)
        rows := by
  have placed {row : Row} (known : row ∈ rows)
      (admitted : Statement.admits (filterOf spelling table scan) row = true) :=
    placed_of_present (holds row known) (present_of_admits sound admitted)
  unfold matching
  rw [(conditionsOf_eq sound).2]
  refine Statement.sorted_resumed_stretch (places_distinct scan.order distinct) ?_
  intro one known other known' admitted admitted' kept up
  exact resumeOf_closed sound (placed known admitted) (placed known' admitted') kept up

/-- What a scan matches stands together in the order of the `@index` that it walks. -/
theorem ordered_stretch {sort : SortDef} {descending : Bool} (sound : Sound spelling table scan)
    (asked : scan.order = some ⟨sort.column, descending⟩)
    (fixes : ∀ rest, Fixes (sort.lead ++ sort.values) (sort.column :: rest) (filterOf spelling table scan))
    (distinct : (rows.map fun row => table.keyColumns.map row).Nodup)
    (holds : ∀ row ∈ rows, table.Holds spelling row) :
    matching spelling table scan rows <:+: walked table (walkOf table sort) descending rows := by
  have listed : walkOf table sort ++ table.keyColumns = sort.lead ++ sort.values ++ (sort.column ::
      ((table.key.map Prod.fst).filter (!sort.lead.contains ·) ++ table.keyColumns)) := by
    unfold walkOf
    rw [List.append_assoc, List.cons_append]
  have apart := apart_of_key (walkOf table sort) distinct
  rw [listed] at apart
  refine (matching_stretch sound distinct holds).trans ?_
  rw [asked]
  change Statement.sorted _ (sort.column :: table.keyColumns) descending rows <:+: _
  unfold walked
  rw [listed]
  -- Rows that the filter leaves share what leads the index, and the rest of the key is in the key.
  rw [Statement.sorted_congr apart]
  · exact Statement.sorted_stretch (fixes _) apart
  · intro one _ other _ first last
    have shared := (fixes []).shared first last
    rw [map_append_lt shared, List.map_cons, List.map_cons, List.map_cons, List.map_cons,
      List.cons_lt_cons_iff, List.cons_lt_cons_iff, keyed_lt_iff]
    intro column led
    refine List.map_inj_left.mp shared column (List.mem_append_left _ ?_)
    simpa using led

/-- Where what is asked leads the key, what a scan matches stands together in it. -/
theorem keyed_stretch {run rest : List String} (sound : Sound spelling table scan)
    (asked : scan.order = none) (led : table.key.map Prod.fst ++ table.keyColumns = run ++ rest)
    (fixes : Fixes run rest (filterOf spelling table scan))
    (distinct : (rows.map fun row => table.keyColumns.map row).Nodup)
    (holds : ∀ row ∈ rows, table.Holds spelling row) :
    matching spelling table scan rows <:+: walked table (table.key.map Prod.fst) false rows := by
  have apart := apart_of_key (table.key.map Prod.fst) distinct
  refine (matching_stretch sound distinct holds).trans ?_
  rw [asked]
  change Statement.sorted _ table.keyColumns false rows <:+: _
  unfold walked
  rw [Statement.sorted_congr apart]
  · rw [led] at apart ⊢
    exact Statement.sorted_stretch fixes apart
  · intro one _ other _ _ _
    have whole : ((table.key.map Prod.fst).filter (fun _ => true) ++ table.keyColumns).map one <
          ((table.key.map Prod.fst).filter (fun _ => true) ++ table.keyColumns).map other ↔
        table.keyColumns.map one < table.keyColumns.map other := keyed_lt_iff nofun
    rw [List.filter_true] at whole
    exact whole

end Pages

/-! ## What a page shows -/

variable {store : Store spelling tables} {keystore : Option KeyStore} {served : Served}

/-- The items of a page are the rows that its scan matches first, each as it is opened. -/
theorem rows_of_page (laid : Laid spelling tables) (picked : Picked tables sel)
    (sound : Sound spelling sel.main scan)
    (read : scanPage spelling codec store sel scan keystore = .ok served) :
    List.Forall₂ (fun row item =>
        itemOf spelling (outsOf sel scan.order) keystore (seen store sel row) = .ok item)
      ((matching spelling sel.main scan (store.rows sel.main.name)).take scan.limit) served.page.items := by
  obtain ⟨fetched, selected, read⟩ := bind_ok.mp read
  obtain ⟨outs, shown, selected⟩ := bind_ok.mp selected
  obtain ⟨conditions, bound, selected⟩ := bind_ok.mp selected
  obtain rfl := Except.ok.inj ((outs_eq sound.orders).symm.trans shown)
  have probe : Sound spelling sel.main { scan with limit := scan.limit + 1 } :=
    ⟨Nat.succ_pos _, sound.filter, sound.orders, sound.after⟩
  obtain rfl := Except.ok.inj ((conditionsOf_eq probe).1.symm.trans bound)
  have same := select_eq laid picked store { scan with limit := scan.limit + 1 }
  dsimp only at same selected
  rw [same, List.mapM_map] at selected
  have each := forall₂_of_mapM_ok selected
  have shorter : min scan.limit (scan.limit + 1) = scan.limit := by omega
  obtain rfl := Except.ok.inj read
  have first := List.forall₂_take scan.limit each
  rw [List.take_take, shorter] at first
  dsimp only
  rw [List.forall₂_map_right_iff]
  refine first.imp ?_
  intro row item made
  obtain ⟨item, opened, rfl⟩ := map_ok.mp made
  exact opened

/-- Scans that ask for the same are served the same page. -/
theorem scanPage_alike (laid : Laid spelling tables) (picked : Picked tables sel) {one other : Scan}
    (parts : one.equals.Perm other.equals) (folds : one.values.Perm other.values)
    (rest : { one with equals := [], values := [] } = { other with equals := [], values := [] })
    (sound : Sound spelling sel.main one) (sound' : Sound spelling sel.main other) :
    scanPage spelling codec store sel one keystore = scanPage spelling codec store sel other keystore := by
  obtain ⟨equals, range, values, valueRange, order, after, limit⟩ := one
  obtain ⟨equals', range', values', valueRange', order', after', limit'⟩ := other
  cases rest
  dsimp only at parts folds
  have probe : Sound spelling sel.main ⟨equals, range, values, valueRange, order, after, limit + 1⟩ :=
    ⟨Nat.succ_pos _, sound.filter, sound.orders, sound.after⟩
  have probe' : Sound spelling sel.main ⟨equals', range, values', valueRange, order, after, limit + 1⟩ :=
    ⟨Nat.succ_pos _, sound'.filter, sound'.orders, sound'.after⟩
  have filters (condition : Condition String) :
      condition ∈ filterOf spelling sel.main ⟨equals, range, values, valueRange, order, after, limit + 1⟩ ↔
        condition ∈ filterOf spelling sel.main ⟨equals', range, values', valueRange, order, after, limit + 1⟩ := by
    rw [mem_filterOf probe, mem_filterOf probe']
    simp only [parts.mem_iff, folds.mem_iff]
  have matched : matching spelling sel.main ⟨equals, range, values, valueRange, order, after, limit + 1⟩
      (store.rows sel.main.name) =
        matching spelling sel.main ⟨equals', range, values', valueRange, order, after, limit + 1⟩
          (store.rows sel.main.name) := by
    unfold matching
    rw [(conditionsOf_eq probe).2, (conditionsOf_eq probe').2]
    refine Statement.sorted_same ?_
    intro condition
    rw [List.mem_append, List.mem_append, filters]
    rfl
  have selected : select spelling store sel ⟨equals, range, values, valueRange, order, after, limit + 1⟩ keystore =
      select spelling store sel ⟨equals', range, values', valueRange, order, after, limit + 1⟩ keystore := by
    unfold select
    dsimp only
    rw [(conditionsOf_eq probe).1, (conditionsOf_eq probe').1]
    have left := select_eq laid picked store ⟨equals, range, values, valueRange, order, after, limit + 1⟩
    have right := select_eq laid picked store ⟨equals', range, values', valueRange, order, after, limit + 1⟩
    rw [matched] at left
    dsimp only at left right
    change (outs sel order).bind _ = (outs sel order).bind _
    congr 1
    funext outs
    change List.mapM _ _ = List.mapM _ _
    rw [left, right]
  unfold scanPage
  dsimp only
  rw [selected]

end Hekla.Reads.Tables
