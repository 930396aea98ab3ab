import Hekla.Reads.TableCursor

/-!
# What a scan that was read can be bound to

Every value that a query string was read into passed the check of its type, so
the statement of a scan binds them all: its filters, and the place it resumes
after where it was handed a cursor.
-/

namespace Hekla.Reads.Tables

open Hekla.Library Hekla.Host
open Hekla.Derived (FieldKind oneRow)

variable {spelling : Spelling} {isUuid : String → Bool} {codec : Codec Cursor}

/-- A text that names a cell of a column. -/
def Names (spelling : Spelling) (kindOf : String → Except String FieldKind) (name text : String) :
    Prop :=
  ∃ kind cell, kindOf name = .ok kind ∧ coerceValue spelling kind text = .ok cell

/-- A range whose ends name cells of a column. -/
def Ranged (spelling : Spelling) (kindOf : String → Except String FieldKind)
    (ranged : String × Range) : Prop :=
  (∃ kind, kindOf ranged.1 = .ok kind) ∧
    ∀ bound ∈ ranged.2.bounds, Names spelling kindOf ranged.1 bound.2

/-- The filters of a scan, each value of which its column can hold, and its limit. -/
structure Filtered (spelling : Spelling) (table : TableDef) (scan : Scan) : Prop where
  limit : 0 < scan.limit
  equals : ∀ given ∈ scan.equals, Names spelling (partKind table) given.1 given.2
  range : ∀ ranged, scan.range = some ranged → Ranged spelling (partKind table) ranged
  values : ∀ given ∈ scan.values, Names spelling (columnKind table) given.1 given.2
  valueRange : ∀ ranged, scan.valueRange = some ranged →
    Ranged spelling (columnKind table) ranged

/-! ## One parameter -/

variable {sel : Selection} {scan next : Scan}

theorem names_of_column (lawful : spelling.Lawful) (formed : sel.main.Formed spelling)
    {column : ColumnDef} (member : column ∈ sel.main.columns) {named value text : String}
    (passed : boundMeta spelling isUuid column.field named value = .ok text) :
    Names spelling (columnKind sel.main) column.name text := by
  obtain ⟨cell, read⟩ := coerce_of_boundMeta lawful passed
  refine ⟨column.field.kind, cell, ?_, read⟩
  unfold columnKind
  rw [formed.column_of_mem member]
  rfl

theorem names_of_part (lawful : spelling.Lawful) {table : TableDef} {part named value text : String}
    (passed : bound spelling isUuid table part named value = .ok text) :
    Names spelling (partKind table) part text := by
  unfold bound at passed
  cases found : table.part part with
  | none =>
      rw [found] at passed
      cases passed
  | some field =>
      rw [found] at passed
      obtain ⟨cell, read⟩ := coerce_of_boundMeta lawful passed
      refine ⟨field.kind, cell, ?_, read⟩
      unfold partKind
      rw [found]
      rfl

theorem setEnd_bounds {range next : Range} {named text : String} {lower : Bool} {kind : Bound}
    (ended : setEnd range named lower (kind, text) = .ok next) :
    ∀ bound ∈ next.bounds, bound ∈ range.bounds ∨ bound.2 = text := by
  unfold setEnd at ended
  intro bound member
  cases lower with
  | true =>
      rw [if_pos rfl] at ended
      split at ended
      · cases ended
      · cases ended
        rcases List.mem_append.mp member with first | last
        · rw [Option.map_some, Option.toList_some, List.mem_singleton] at first
          exact .inr (by rw [first])
        · exact .inl (List.mem_append_right _ last)
  | false =>
      rw [if_neg Bool.false_ne_true] at ended
      split at ended
      · cases ended
      · cases ended
        rcases List.mem_append.mp member with first | last
        · exact .inl (List.mem_append_left _ first)
        · rw [Option.map_some, Option.toList_some, List.mem_singleton] at last
          exact .inr (by rw [last])

/-- A range that gets one more end is still of its column. -/
theorem ranged_of_setEnd {kindOf : String → Except String FieldKind} {asked : Option (String × Range)}
    (before : ∀ ranged, asked = some ranged → Ranged spelling kindOf ranged) {name named text : String}
    {range : Range} {lower : Bool} {kind : Bound} (names : Names spelling kindOf name text)
    (same : (asked.getD (name, {})).1 = name)
    (ended : setEnd (asked.getD (name, {})).2 named lower (kind, text) = .ok range) :
    Ranged spelling kindOf ((asked.getD (name, {})).1, range) := by
  rw [same]
  obtain ⟨found, cell, known, read⟩ := names
  refine ⟨⟨found, known⟩, ?_⟩
  intro bound member
  rcases setEnd_bounds ended bound member with kept | added
  · cases asked with
    | none => cases kept
    | some ranged =>
        rw [Option.getD_some] at same kept
        rw [← same]
        exact (before ranged rfl).2 bound kept
  · rw [added]
    exact ⟨found, cell, known, read⟩

theorem column_of_filteredFold {name : String} {column : ColumnDef}
    (named : filteredFold sel name = .ok (some column)) : column ∈ sel.main.columns := by
  unfold filteredFold at named
  split at named
  · split at named
    · next found =>
        split at named
        · cases named
        · split at named
          · cases named
            exact List.mem_of_find?_eq_some found
          · cases named
    · split at named <;> cases named
  · cases named

theorem Filtered.pinPart (lawful : spelling.Lawful) (filtered : Filtered spelling sel.main scan)
    {param value : String} (pinned : pinPart spelling isUuid sel scan param value = .ok next) :
    Filtered spelling sel.main next := by
  unfold Tables.pinPart at pinned
  obtain ⟨part, _, pinned⟩ := bind_ok.mp pinned
  split at pinned
  · cases pinned
  · cases passed : bound spelling isUuid sel.main part param value with
    | error why =>
        rw [passed] at pinned
        cases pinned
    | ok text =>
        rw [passed] at pinned
        cases pinned
        refine { filtered with equals := ?_ }
        intro given member
        rcases List.mem_append.mp member with kept | added
        · exact filtered.equals given kept
        · rw [List.mem_singleton.mp added]
          exact names_of_part lawful passed

theorem Filtered.pinValue (lawful : spelling.Lawful) (formed : sel.main.Formed spelling)
    (filtered : Filtered spelling sel.main scan) {column : ColumnDef}
    (member : column ∈ sel.main.columns) {param value : String}
    (pinned : pinValue spelling isUuid scan column param value = .ok next) :
    Filtered spelling sel.main next := by
  unfold Tables.pinValue at pinned
  split at pinned
  · cases pinned
  · cases passed : boundMeta spelling isUuid column.field param value with
    | error why =>
        rw [passed] at pinned
        cases pinned
    | ok text =>
        rw [passed] at pinned
        cases pinned
        refine { filtered with values := ?_ }
        intro given held
        rcases List.mem_append.mp held with kept | added
        · exact filtered.values given kept
        · rw [List.mem_singleton.mp added]
          exact names_of_column lawful formed member passed

theorem Filtered.valueBound (lawful : spelling.Lawful) (formed : sel.main.Formed spelling)
    (filtered : Filtered spelling sel.main scan) {column : ColumnDef}
    (member : column ∈ sel.main.columns) {name value : String}
    (bounded : valueBound spelling isUuid scan column name value = .ok next) :
    Filtered spelling sel.main next := by
  unfold Tables.valueBound at bounded
  obtain ⟨⟨fold, lower, kind⟩, _, bounded⟩ := bind_ok.mp bounded
  obtain ⟨_, _, bounded⟩ := bind_ok.mp bounded
  dsimp only at bounded
  split at bounded
  · cases bounded
  · next same =>
      obtain ⟨text, passed, bounded⟩ := bind_ok.mp bounded
      obtain ⟨range, ended, bounded⟩ := bind_ok.mp bounded
      cases bounded
      refine { filtered with valueRange := ?_ }
      intro ranged asked
      cases asked
      exact ranged_of_setEnd filtered.valueRange (names_of_column lawful formed member passed)
        (not_not.mp same) ended

theorem Filtered.rangedBound (lawful : spelling.Lawful) (filtered : Filtered spelling sel.main scan)
    {name value : String} (bounded : rangedBound spelling isUuid sel scan name value = .ok next) :
    Filtered spelling sel.main next := by
  unfold Tables.rangedBound at bounded
  obtain ⟨⟨param, lower, kind⟩, _, bounded⟩ := bind_ok.mp bounded
  obtain ⟨part, _, bounded⟩ := bind_ok.mp bounded
  obtain ⟨_, _, bounded⟩ := bind_ok.mp bounded
  dsimp only at bounded
  split at bounded
  · cases bounded
  · next same =>
      obtain ⟨text, passed, bounded⟩ := bind_ok.mp bounded
      obtain ⟨range, ended, bounded⟩ := bind_ok.mp bounded
      cases bounded
      refine { filtered with range := ?_ }
      intro ranged asked
      cases asked
      exact ranged_of_setEnd filtered.range (names_of_part lawful passed) (not_not.mp same) ended

theorem Filtered.readFilter (lawful : spelling.Lawful) (formed : sel.main.Formed spelling)
    (filtered : Filtered spelling sel.main scan) {name value : String}
    (read : readFilter spelling isUuid sel scan name value = .ok next) :
    Filtered spelling sel.main next := by
  unfold Tables.readFilter at read
  split at read
  · obtain ⟨column, named, read⟩ := bind_ok.mp read
    cases column with
    | none => exact filtered.rangedBound lawful read
    | some column => exact filtered.valueBound lawful formed (column_of_filteredFold named) read
  · obtain ⟨column, named, read⟩ := bind_ok.mp read
    cases column with
    | none => exact filtered.pinPart lawful read
    | some column => exact filtered.pinValue lawful formed (column_of_filteredFold named) read

theorem readLimit_pos {raw : String} {limit : Nat} (read : readLimit raw = .ok limit) : 0 < limit := by
  unfold readLimit at read
  split at read
  · next asked found =>
      cases read
      have positive : 0 < asked := by simpa using (Option.filter_eq_some_iff.mp found).2
      exact Nat.lt_min.mpr ⟨positive, by decide⟩
  · cases read

theorem Filtered.readParam (lawful : spelling.Lawful) (formed : sel.main.Formed spelling)
    {before after : Reading} {param : String × String}
    (filtered : Filtered spelling sel.main before.scan)
    (read : readParam spelling isUuid sel before param = .ok after) :
    Filtered spelling sel.main after.scan := by
  unfold Tables.readParam at read
  split at read
  · cases limited : readLimit param.2 with
    | error why =>
        rw [limited] at read
        cases read
    | ok limit =>
        rw [limited] at read
        cases read
        exact ⟨readLimit_pos limited, filtered.equals, filtered.range, filtered.values, filtered.valueRange⟩
  · split at read
    · cases read
      exact filtered
    · split at read
      · cases read
        exact filtered
      · split at read
        · cases read
          exact filtered
        · cases filter : Tables.readFilter spelling isUuid sel before.scan param.1 param.2 with
          | error why =>
              rw [filter] at read
              cases read
          | ok scan =>
              rw [filter] at read
              cases read
              exact filtered.readFilter lawful formed filter

theorem filtered_of_params (lawful : spelling.Lawful) (formed : sel.main.Formed spelling)
    {params : List (String × String)} {reading : Reading}
    (read : params.foldlM (readParam spelling isUuid sel) {} = .ok reading) :
    Filtered spelling sel.main reading.scan := by
  have empty : Filtered spelling sel.main ({} : Reading).scan :=
    ⟨by decide, nofun, nofun, nofun, nofun⟩
  exact pass_keeps (fun _ => True) (fun reading => Filtered spelling sel.main reading.scan)
    (fun _ filtered read => filtered.readParam lawful formed read) (fun _ _ => trivial) empty read

/-! ## The filters of a statement -/

variable {table : TableDef}

theorem pinned_ok {kindOf : String → Except String FieldKind} {given : String × String}
    (names : Names spelling kindOf given.1 given.2) :
    ∃ condition, pinned spelling kindOf given = .ok condition := by
  obtain ⟨kind, cell, known, read⟩ := names
  exact ⟨_, bind_ok.mpr ⟨_, known, bind_ok.mpr ⟨_, read, rfl⟩⟩⟩

theorem boundedAny_ok {kindOf : String → Except String FieldKind} {asked : Option (String × Range)}
    (ranged : ∀ range, asked = some range → Ranged spelling kindOf range) :
    ∃ conditions, boundedAny spelling kindOf asked = .ok conditions := by
  cases asked with
  | none => exact ⟨[], rfl⟩
  | some range =>
      obtain ⟨⟨kind, known⟩, ends⟩ := ranged range rfl
      have each : ∀ bound ∈ range.2.bounds, ∃ condition : Condition String,
          ((coerceValue spelling kind bound.2).map fun cell =>
            Condition.compares [range.1] bound.1 [cell]) = .ok condition := by
        intro bound member
        obtain ⟨other, cell, same, read⟩ := ends bound member
        obtain rfl := Except.ok.inj (known.symm.trans same)
        rw [read]
        exact ⟨_, rfl⟩
      obtain ⟨conditions, bound⟩ := exists_mapM_ok each
      exact ⟨conditions, bind_ok.mpr ⟨_, known, bound⟩⟩

/-- The filters of a scan are bound, and leave out what has no value in its ordering. -/
theorem filterConditions_ok (filtered : Filtered spelling table scan) :
    ∃ conditions, filterConditions spelling table scan = .ok (conditions ++ presence scan.order) := by
  obtain ⟨equals, bound⟩ := exists_mapM_ok fun given member => pinned_ok (filtered.equals given member)
  obtain ⟨range, bound'⟩ := boundedAny_ok filtered.range
  obtain ⟨values, bound''⟩ :=
    exists_mapM_ok fun given member => pinned_ok (filtered.values given member)
  obtain ⟨valueRange, bound'''⟩ := boundedAny_ok filtered.valueRange
  exact ⟨equals ++ range ++ values ++ valueRange, bind_ok.mpr ⟨_, bound, bind_ok.mpr ⟨_, bound',
    bind_ok.mpr ⟨_, bound'', bind_ok.mpr ⟨_, bound''', rfl⟩⟩⟩⟩⟩

/-! ## The ordering -/

theorem sort_of_ordered {raw : String} {filtering : Bool} {order : Order}
    (found : ordered sel scan raw filtering = .ok order) :
    ∃ sort ∈ sel.main.sorts, order.column = sort.column := by
  unfold ordered at found
  dsimp only at found
  split at found
  · cases found
  · next sort rest declared =>
      split at found
      · cases found
      · cases found
        refine ⟨sort, ?_, rfl⟩
        have listed : sort ∈ sort :: rest := List.mem_cons_self
        rw [← declared] at listed
        exact (List.mem_filter.mp listed).1

theorem orders_of_settle (formed : sel.main.Formed spelling) {reading : Reading}
    {order : Option Order} (settled : settle sel reading = .ok order) : Orders sel.main order := by
  obtain ⟨_, _, settled⟩ := bind_ok.mp settled
  obtain ⟨_, _, settled⟩ := bind_ok.mp settled
  obtain ⟨_, _, settled⟩ := bind_ok.mp settled
  have declared {raw : String} {filtering : Bool}
      (found : (ordered sel reading.scan raw filtering).map some = .ok order) :
      Orders sel.main order := by
    cases made : ordered sel reading.scan raw filtering with
    | error why =>
        rw [made] at found
        cases found
    | ok by_ =>
        rw [made] at found
        cases found
        intro other same
        cases same
        obtain ⟨sort, member, column⟩ := sort_of_ordered made
        rw [column]
        exact formed.sorts sort member
  unfold orderOf at settled
  split at settled
  · exact declared settled
  · obtain ⟨implied, _, settled⟩ := bind_ok.mp settled
    cases implied with
    | none =>
        cases settled
        exact nofun
    | some raw => exact declared settled

/-! ## The place it resumes after -/

/-- A place in an ordering, which holds no null. -/
def Placed (table : TableDef) (order : Option Order) (place : List Cell) : Prop :=
  .null ∉ place ∧ place.length = (orderColumns table order).length

theorem coerceValue_ne_null {kind : FieldKind} {text : String} {cell : Cell}
    (read : coerceValue spelling kind text = .ok cell) : cell ≠ .null :=
  Held.ne_null ⟨text, read⟩

theorem sortBinds_of_cursorValue {order : Option Order} {value read : Option String}
    (passed : cursorValue spelling table order value = .ok read) :
    ∃ cells, sortBinds spelling table order read = .ok cells ∧
      cells.map Prod.fst = order.toList.map Order.column ∧ ∀ cell ∈ cells, cell.2 ≠ .null := by
  unfold cursorValue at passed
  split at passed
  · cases passed
    exact ⟨[], rfl, rfl, nofun⟩
  · next by_ text =>
      split at passed
      · cases passed
      · next column named =>
          cases coerced : coerceValue spelling column.field.kind text with
          | error why =>
              rw [coerced] at passed
              cases passed
          | ok cell =>
              rw [coerced] at passed
              cases passed
              have known : columnKind table by_.column = .ok column.field.kind := by
                unfold columnKind
                rw [named]
                rfl
              refine ⟨[(by_.column, cell)], bind_ok.mpr ⟨_, known, bind_ok.mpr ⟨_, coerced, rfl⟩⟩, rfl,
                ?_⟩
              intro held member
              rw [List.mem_singleton.mp member]
              exact coerceValue_ne_null coerced
  · cases passed

theorem keyPlaces_of_cursorKey (lawful : spelling.Lawful) (formed : table.Formed spelling)
    {given texts : List String} (width : given.length = table.key.length)
    (passed : cursorKey spelling isUuid table given = .ok texts) :
    ∃ cells, keyPlaces spelling table texts = .ok cells ∧
      cells.map Prod.fst = table.key.map Prod.fst ∧ ∀ cell ∈ cells, cell.2 ≠ .null := by
  have each := forall₂_of_mapM_ok passed
  have read : List.Forall₂ (fun part text =>
      ∃ cell, coerceValue spelling part.2.kind text = .ok cell) table.key texts := by
    have inside : ∀ pair ∈ table.key.zip given, pair.1 ∈ table.key := fun _ member =>
      (List.of_mem_zip member).1
    rw [← List.map_fst_zip (Nat.le_of_eq width.symm), List.forall₂_map_left_iff]
    refine (List.forall₂_and_left _ _ |>.mpr ⟨inside, each⟩).imp ?_
    rintro pair text ⟨member, bound⟩
    rw [mapError_ok] at bound
    unfold Tables.bound at bound
    rw [part_of_mem formed member] at bound
    exact coerce_of_boundMeta lawful bound
  obtain ⟨same, zipped⟩ := List.forall₂_iff_zip.mp read
  have bindable : ∀ pair ∈ table.key.zip texts, ∃ cell,
      ((coerceValue spelling pair.1.2.kind pair.2).map fun cell => (pair.1.1, cell)) = .ok cell := by
    intro pair member
    obtain ⟨cell, coerced⟩ := zipped member
    rw [coerced]
    exact ⟨_, rfl⟩
  obtain ⟨cells, bound⟩ := exists_mapM_ok bindable
  refine ⟨cells, bound, ?_, ?_⟩
  · have named : ∀ (pair : (String × FieldMeta) × String) (cell : String × Cell),
        ((coerceValue spelling pair.1.2.kind pair.2).map fun cell => (pair.1.1, cell)) = .ok cell →
          cell.1 = pair.1.1 := by
      intro pair cell made
      cases coerced : coerceValue spelling pair.1.2.kind pair.2 with
      | error why =>
          rw [coerced] at made
          cases made
      | ok value =>
          rw [coerced] at made
          cases made
          rfl
    have columns : cells.map Prod.fst = (table.key.zip texts).map fun pair => pair.1.1 :=
      map_of_mapM_ok bound named
    have listed := List.map_fst_zip (Nat.le_of_eq same)
    rw [columns, ← listed, List.map_map, listed]
    rfl
  · intro cell member
    obtain ⟨pair, _, made⟩ := (mem_of_mapM_ok bound cell).mp member
    cases coerced : coerceValue spelling pair.1.2.kind pair.2 with
    | error why =>
        rw [coerced] at made
        cases made
    | ok value =>
        rw [coerced] at made
        cases made
        exact coerceValue_ne_null coerced

/-- What a cursor that was accepted resumes after is a place. -/
theorem afterCondition_of_decodeCursor (lawful : spelling.Lawful)
    (formed : sel.main.Formed spelling) {raw : String} {order : Option Order} {after : After}
    (read : decodeCursor spelling isUuid codec sel raw order = .ok after) :
    ∃ place, afterCondition spelling sel.main order (some after) =
        .ok [Statement.after (orderColumns sel.main order) (descends order) place] ∧
      Placed sel.main order place := by
  unfold decodeCursor at read
  split at read
  · cases read
  · next some_ =>
      split at read
      · cases read
      · next cursor decoded =>
          split at read
          · cases read
          · next fits =>
              split at read
              · cases read
              · obtain ⟨texts, keyed, read⟩ := bind_ok.mp read
                obtain ⟨value, valued, read⟩ := bind_ok.mp read
                cases read
                have width := not_not.mp (not_or.mp fits).2
                obtain ⟨cells, bound, columns, present⟩ := sortBinds_of_cursorValue valued
                obtain ⟨parts, bound', columns', present'⟩ :=
                  keyPlaces_of_cursorKey lawful formed width keyed
                have listed : (cells ++ parts).map Prod.fst = orderColumns sel.main order := by
                  unfold orderColumns TableDef.keyColumns
                  rw [List.map_append, columns, columns', if_neg some_]
                refine ⟨(cells ++ parts).map Prod.snd, ?_, ?_, ?_⟩
                · exact bind_ok.mpr ⟨_, bound, bind_ok.mpr ⟨_, bound', by rw [listed]⟩⟩
                · intro empty
                  obtain ⟨cell, member, same⟩ := List.mem_map.mp empty
                  rcases List.mem_append.mp member with first | last
                  · exact present cell first same
                  · exact present' cell last same
                · rw [← listed, List.length_map, List.length_map]

/-! ## The whole scan -/

/-- A scan whose statement binds what it was asked for. -/
structure Sound (spelling : Spelling) (table : TableDef) (scan : Scan) : Prop where
  limit : 0 < scan.limit
  filter : ∃ conditions,
    filterConditions spelling table scan = .ok (conditions ++ presence scan.order)
  orders : Orders table scan.order
  after : ∀ after, scan.after = some after → ∃ place,
    afterCondition spelling table scan.order (some after) =
      .ok [Statement.after (orderColumns table scan.order) (descends scan.order) place] ∧
    Placed table scan.order place

theorem sound_of_parseScan (lawful : spelling.Lawful) (formed : sel.main.Formed spelling)
    {params : List (String × String)}
    (parsed : parseScan spelling isUuid codec sel params = .ok scan) :
    Sound spelling sel.main scan := by
  obtain ⟨reading, read, parsed⟩ := bind_ok.mp parsed
  obtain ⟨order, settled, parsed⟩ := bind_ok.mp parsed
  obtain ⟨after, resumed, parsed⟩ := bind_ok.mp parsed
  cases parsed
  have filtered := filtered_of_params lawful formed read
  refine ⟨filtered.limit, filterConditions_ok ⟨filtered.limit, filtered.equals, filtered.range, filtered.values,
    filtered.valueRange⟩, orders_of_settle formed settled, ?_⟩
  intro place same
  dsimp only at same
  subst same
  cases cursor : reading.cursor with
  | none =>
      rw [cursor] at resumed
      cases resumed
  | some raw =>
      rw [cursor] at resumed
      unfold afterOf at resumed
      dsimp only at resumed
      cases decoded : decodeCursor spelling isUuid codec sel raw order with
      | error why =>
          rw [decoded] at resumed
          cases resumed
      | ok found =>
          rw [decoded] at resumed
          cases resumed
          exact afterCondition_of_decodeCursor lawful formed decoded

end Hekla.Reads.Tables
