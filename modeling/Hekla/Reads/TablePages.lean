import Hekla.Reads.Pagination
import Hekla.Reads.TableSound

/-!
# Following the cursors of a row read

The rows a scan matches are rows of the main table alone, in the order of the
column it is ordered by and the key, whichever folds are asked for.  A request
that hands a row's cursor back leaves exactly the rows that follow, as long as
the row's key passes the check that a filter's values go through.
-/

namespace Hekla.Reads.Tables

open Hekla.Library Hekla.Host
open Hekla.Derived (FieldKind oneRow)

variable {spelling : Spelling} {isUuid : String → Bool} {codec : Codec Cursor}
  {tables : List TableDef} {sel : Selection} {scan : Scan}

/-! ## What a scan matches -/

/-- The conditions of a scan's statement. -/
def conditionsOf (spelling : Spelling) (table : TableDef) (scan : Scan) : List (Condition String) :=
  (selectConditions spelling table scan).toOption.getD []

/-- The rows of the main table that a scan matches, in its order. -/
def matching (spelling : Spelling) (table : TableDef) (scan : Scan) (rows : List Row) : List Row :=
  Statement.sorted (conditionsOf spelling table scan) (orderColumns table scan.order)
    (descends scan.order) rows

/-- The filters of a scan, without the place it resumes after. -/
def filterOf (spelling : Spelling) (table : TableDef) (scan : Scan) : List (Condition String) :=
  (filterConditions spelling table scan).toOption.getD []

theorem filterConditions_eq {table : TableDef} (sound : Sound spelling table scan) :
    filterConditions spelling table scan = .ok (filterOf spelling table scan) := by
  obtain ⟨conditions, bound⟩ := sound.filter
  unfold filterOf
  rw [bound]
  rfl

theorem present_of_admits {table : TableDef} (sound : Sound spelling table scan) {row : Row}
    (admitted : Statement.admits (filterOf spelling table scan) row = true) :
    Present scan.order row := by
  obtain ⟨conditions, bound⟩ := sound.filter
  have listed : filterOf spelling table scan = conditions ++ presence scan.order := by
    unfold filterOf
    rw [bound]
    rfl
  intro by_ same
  have member : Condition.present by_.column ∈ filterOf spelling table scan := by
    rw [listed, same]
    exact List.mem_append_right _ (List.mem_singleton_self _)
  simpa [Condition.holds] using List.all_eq_true.mp admitted _ member

/-- The place a scan resumes after, as conditions. -/
def resumeOf (spelling : Spelling) (table : TableDef) (scan : Scan) : List (Condition String) :=
  (afterCondition spelling table scan.order scan.after).toOption.getD []

theorem afterCondition_eq {table : TableDef} (sound : Sound spelling table scan) :
    afterCondition spelling table scan.order scan.after = .ok (resumeOf spelling table scan) := by
  unfold resumeOf
  cases asked : scan.after with
  | none => rfl
  | some after =>
      obtain ⟨place, bound, _⟩ := sound.after after asked
      rw [bound]
      rfl

theorem conditionsOf_eq {table : TableDef} (sound : Sound spelling table scan) :
    selectConditions spelling table scan = .ok (conditionsOf spelling table scan) ∧
      conditionsOf spelling table scan =
        filterOf spelling table scan ++ resumeOf spelling table scan := by
  have whole : selectConditions spelling table scan =
      .ok (filterOf spelling table scan ++ resumeOf spelling table scan) :=
    bind_ok.mpr ⟨_, filterConditions_eq sound, bind_ok.mpr ⟨_, afterCondition_eq sound, rfl⟩⟩
  have same : conditionsOf spelling table scan =
      filterOf spelling table scan ++ resumeOf spelling table scan := by
    unfold conditionsOf
    rw [whole]
    rfl
  exact ⟨by rw [same, whole], same⟩

/-! ## Places -/

section Places

variable {table : TableDef} {order : Option Order}

/-- No two rows share a place in an ordering that ends in the key. -/
theorem apart_of_key {rows : List Row} (columns : List String)
    (distinct : (rows.map fun row => table.keyColumns.map row).Nodup) :
    (rows.map (placeOf (columns ++ table.keyColumns))).Nodup := by
  rw [List.nodup_iff_pairwise_ne, List.pairwise_map] at distinct ⊢
  refine distinct.imp ?_
  intro one other apart same
  unfold placeOf at same
  rw [List.map_append, List.map_append] at same
  exact apart (List.append_inj_right same (by simp))

theorem places_distinct {rows : List Row} (order : Option Order)
    (distinct : (rows.map fun row => table.keyColumns.map row).Nodup) :
    (rows.map (placeOf (orderColumns table order))).Nodup :=
  apart_of_key _ distinct

theorem placed_of_present {row : Row} (holds : table.Holds spelling row)
    (present : Present order row) : Placed table order (placeOf (orderColumns table order) row) := by
  refine ⟨?_, List.length_map _⟩
  intro empty
  obtain ⟨column, member, null⟩ := List.mem_map.mp empty
  rcases List.mem_append.mp member with sorted | keyed
  · obtain ⟨by_, asked, rfl⟩ := List.mem_map.mp sorted
    exact present by_ (Option.mem_toList.mp asked) null
  · unfold TableDef.keyColumns at keyed
    split at keyed
    · next keyless =>
        rw [List.mem_singleton.mp keyed, holds.guarded (List.isEmpty_iff.mp keyless)] at null
        cases null
    · obtain ⟨part, known, rfl⟩ := List.mem_map.mp keyed
      exact (holds.keyed part known).ne_null null

end Places

/-- A scan admits whatever follows a row that it admits. -/
theorem resumeOf_closed {table : TableDef} (sound : Sound spelling table scan) {one other : Row}
    (left : Placed table scan.order (placeOf (orderColumns table scan.order) one))
    (right : Placed table scan.order (placeOf (orderColumns table scan.order) other))
    (admitted : Statement.admits (resumeOf spelling table scan) one = true)
    (up : follows (descends scan.order) (placeOf (orderColumns table scan.order) one)
      (placeOf (orderColumns table scan.order) other)) :
    Statement.admits (resumeOf spelling table scan) other = true := by
  unfold resumeOf at admitted ⊢
  cases asked : scan.after with
  | none => rfl
  | some after =>
      obtain ⟨place, bound, placed⟩ := sound.after after asked
      rw [asked, bound] at admitted
      rw [bound]
      have after_one : (Statement.after (orderColumns table scan.order) (descends scan.order)
          place).holds one = true := by
        simpa [Statement.admits, Except.toOption] using admitted
      have after_other : (Statement.after (orderColumns table scan.order) (descends scan.order)
          place).holds other = true := by
        rw [Statement.holds_after left.1 placed.1 placed.2, decide_eq_true_iff] at after_one
        rw [Statement.holds_after right.1 placed.1 placed.2, decide_eq_true_iff]
        exact trans_of (follows (descends scan.order)) after_one up
      simpa [Statement.admits, Except.toOption] using after_other

/-- Handed the place of a row it matches, a scan matches the rows that follow. -/
theorem matching_resumed {table : TableDef} (sound : Sound spelling table scan) {rows : List Row}
    (distinct : (rows.map fun row => table.keyColumns.map row).Nodup)
    (holds : ∀ row ∈ rows, table.Holds spelling row) {done rest : List Row} {last : Row}
    (split : matching spelling table scan rows = done ++ rest) (ended : done.getLast? = some last)
    {after : After} (limit : Nat)
    (resumed : afterCondition spelling table scan.order (some after) =
      .ok [Statement.after (orderColumns table scan.order) (descends scan.order)
        (placeOf (orderColumns table scan.order) last)]) :
    matching spelling table { scan with limit := limit, after := some after } rows = rest := by
  have filter := filterConditions_eq sound
  have conditions : conditionsOf spelling table { scan with limit := limit, after := some after } =
      filterOf spelling table scan ++
        [Statement.after (orderColumns table scan.order) (descends scan.order)
          (placeOf (orderColumns table scan.order) last)] := by
    have whole : selectConditions spelling table { scan with limit := limit, after := some after } =
        .ok (filterOf spelling table scan ++
          [Statement.after (orderColumns table scan.order) (descends scan.order)
            (placeOf (orderColumns table scan.order) last)]) :=
      bind_ok.mpr ⟨_, filter, bind_ok.mpr ⟨_, resumed, rfl⟩⟩
    unfold conditionsOf
    rw [whole]
    rfl
  have placed {row : Row} (member : row ∈ rows)
      (admitted : Statement.admits (filterOf spelling table scan) row = true) :=
    placed_of_present (holds row member) (present_of_admits sound admitted)
  unfold matching at split ⊢
  rw [(conditionsOf_eq sound).2] at split
  rw [conditions]
  refine Statement.sorted_resume (places_distinct scan.order distinct)
    (fun row member admitted => (placed member admitted).1) ?_ split ended
  intro one known other known' admitted admitted' kept up
  exact resumeOf_closed sound (placed known admitted) (placed known' admitted') kept up

/-! ## The rows of a statement -/

/-- The row of the side table beside a row, where a collection is asked for. -/
def sideRow (store : Store spelling tables) (sel : Selection) (row : Row) : Option Row :=
  if sel.folds.any fun fold => !inMain sel fold then
    (sideOf tables sel.main).bind fun side =>
      (store.rows side.name).find? (matchesOn sel.main.keyColumns row)
  else none

/-- A row as a statement reads it. -/
def seen (store : Store spelling tables) (sel : Selection) (row : Row) : Alias × String → Cell :=
  joinedRow row (sideRow store sel row)

theorem side_known (laid : Laid spelling tables) (picked : Picked tables sel) {side : TableDef}
    (found : sideOf tables sel.main = some side) :
    side ∈ tables ∧ side.keyColumns = sel.main.keyColumns := by
  have known := List.mem_of_find?_eq_some found
  have test := List.find?_some found
  rw [Bool.and_eq_true, beq_iff_eq] at test
  have same := laid.split side known sel.main picked.main (test.1.trans picked.source.symm)
  refine ⟨known, ?_⟩
  unfold TableDef.keyColumns
  rw [same]

/-- A row of the main table is read once, whatever is joined to it. -/
theorem source_eq (laid : Laid spelling tables) (picked : Picked tables sel)
    (store : Store spelling tables) :
    source spelling store sel = (store.rows sel.main.name).map (seen store sel) := by
  unfold source seen sideRow
  by_cases joins : (sel.folds.any fun fold => !inMain sel fold) = true
  · simp only [if_pos joins]
    cases found : sideOf tables sel.main with
    | none => rfl
    | some side =>
        obtain ⟨known, same⟩ := side_known laid picked found
        have distinct := store.distinct side known
        rw [same] at distinct
        exact leftJoin_eq_map distinct _
  · simp only [if_neg joins]

/-! ## What is read off a row -/

def outsOf (sel : Selection) (order : Option Order) : List Out := (outs sel order).toOption.getD []

theorem sortOuts_ok {order : Option Order} (orders : Orders sel.main order) :
    ∃ sorted, sortOuts sel order = .ok sorted ∧
      outsOf sel order = keyOuts sel ++ foldOuts sel ++ sorted := by
  have some_ : ∃ sorted, sortOuts sel order = .ok sorted := by
    cases order with
    | none => exact ⟨[], rfl⟩
    | some by_ =>
        obtain ⟨column, named, _⟩ := orders by_ rfl
        unfold sortOuts
        dsimp only
        rw [named]
        dsimp only
        split <;> exact ⟨_, rfl⟩
  obtain ⟨sorted, found⟩ := some_
  refine ⟨sorted, found, ?_⟩
  unfold outsOf outs
  rw [found]
  rfl

theorem outs_eq {order : Option Order} (orders : Orders sel.main order) :
    outs sel order = .ok (outsOf sel order) := by
  obtain ⟨sorted, found, listed⟩ := sortOuts_ok orders
  rw [listed]
  unfold outs
  rw [found]
  rfl

theorem key_of_foldOuts : ∀ out ∈ foldOuts sel, out.key = false := by
  intro out member
  obtain ⟨fold, _, rfl⟩ := List.mem_map.mp member
  split <;> rfl

theorem key_of_sortOuts {order : Option Order} {sorted : List Out}
    (found : sortOuts sel order = .ok sorted) : ∀ out ∈ sorted, out.key = false := by
  unfold sortOuts at found
  split at found
  · cases found
    exact nofun
  · split at found
    · cases found
    · split at found <;> cases found
      · exact nofun
      · intro out member
        rw [List.mem_singleton.mp member]

/-- The columns that a cursor's ordered value is read from all hold it. -/
theorem cell_of_sorted {order : Option Order} {sorted : List Out}
    (found : sortOuts sel order = .ok sorted) {by_ : Order} (asked : order = some by_)
    (orders : Orders sel.main order) (store : Store spelling tables) (row : Row) :
    ∀ out ∈ foldOuts sel ++ sorted, out.column = by_.column →
      out.cell (seen store sel row) = row by_.column := by
  obtain ⟨column, named, _⟩ := orders by_ asked
  obtain ⟨known, same⟩ := TableDef.column_mem named
  intro out member column_
  rcases List.mem_append.mp member with folded | last
  · obtain ⟨fold, _, rfl⟩ := List.mem_map.mp folded
    have held : fold.name = by_.column := by
      split at column_ <;> exact column_
    have inside : inMain sel fold = true :=
      List.any_eq_true.mpr ⟨column, known, beq_iff_eq.mpr (same.trans held.symm)⟩
    rw [if_pos inside, ← held]
    rfl
  · subst asked
    unfold sortOuts at found
    dsimp only at found
    rw [named] at found
    dsimp only at found
    split at found <;> cases found
    · cases last
    · obtain rfl := List.mem_singleton.mp last
      rw [← column_]
      rfl

/-- Some column is read for a cursor's ordered value. -/
theorem sorted_read {order : Option Order} {sorted : List Out}
    (found : sortOuts sel order = .ok sorted) {by_ : Order} (asked : order = some by_)
    (orders : Orders sel.main order) : ∃ out ∈ foldOuts sel ++ sorted, out.column = by_.column := by
  obtain ⟨column, named, _⟩ := orders by_ asked
  have same := (TableDef.column_mem named).2
  subst asked
  unfold sortOuts at found
  dsimp only at found
  rw [named] at found
  dsimp only at found
  split at found
  · next listed =>
      obtain ⟨fold, member, held⟩ := List.any_eq_true.mp listed
      refine ⟨_, List.mem_append_left _ (List.mem_map_of_mem member), ?_⟩
      have equal := (beq_iff_eq.mp held).trans same
      split <;> exact equal
  · cases found
    exact ⟨_, List.mem_append_right _ (List.mem_singleton_self _), same⟩

theorem getLast?_of_same {α : Type u} {items : List α} {value : α}
    (same : ∀ item ∈ items, item = value) (some_ : items ≠ []) : items.getLast? = some value := by
  rw [List.getLast?_eq_some_getLast some_, same _ (List.getLast_mem some_)]

/-- What a cursor at a row is made of does not depend on the folds asked for. -/
theorem afterAt_eq (picked : Picked tables sel) {order : Option Order}
    (orders : Orders sel.main order) (store : Store spelling tables) (row : Row) :
    afterAt (outsOf sel order) order (seen store sel row) = markAfter sel.main order row := by
  obtain ⟨sorted, found, listed⟩ := sortOuts_ok orders
  have unkeyed : ∀ out ∈ foldOuts sel ++ sorted, out.key = false := by
    intro out member
    rcases List.mem_append.mp member with folded | last
    · exact key_of_foldOuts out folded
    · exact key_of_sortOuts found out last
  have keyed : ∀ out ∈ keyOuts sel, out.key = true := by
    intro out member
    obtain ⟨part, _, rfl⟩ := List.mem_map.mp member
    rfl
  rw [listed, List.append_assoc]
  unfold afterAt markAfter
  congr 1
  · rw [List.filter_append, List.filter_eq_nil_iff.mpr fun out member => by simp [keyed out member],
      List.nil_append]
    cases asked : order with
    | none => simp
    | some by_ =>
        obtain ⟨out, member, column⟩ := sorted_read found asked orders
        refine getLast?_of_same ?_ ?_
        · intro text listed
          obtain ⟨out, kept, rfl⟩ := List.mem_map.mp listed
          obtain ⟨member, test⟩ := List.mem_filter.mp kept
          have column : out.column = by_.column := by
            rw [Bool.and_eq_true, Option.any_some] at test
            exact (beq_iff_eq.mp test.2).symm
          rw [cell_of_sorted found asked orders store row out member column]
        · intro empty
          have none_ := List.filter_eq_nil_iff.mp (List.map_eq_nil_iff.mp empty) out member
          simp [unkeyed out member, column] at none_
  · rw [List.filter_append, List.filter_eq_self.mpr keyed,
      List.filter_eq_nil_iff.mpr fun out member => by simp [unkeyed out member], List.append_nil]
    have parts := List.map_fst_zip (Nat.le_of_eq picked.args.symm)
    unfold keyOuts
    conv_rhs => rw [← parts]
    rw [List.map_map, List.map_map]
    rfl

/-! ## A page -/

/-- One request of a reader that pages through a selection: the limit it gives, if
any, and the keys there are when it is served, which open every cell it shows. -/
structure Turn (store : Store spelling tables) (sel : Selection) (order : Option Order) where
  limit : Option String
  keystore : Option KeyStore
  accepted : ∀ text, limit = some text → ∃ limit, readLimit text = .ok limit
  opens : ∀ row ∈ store.rows sel.main.name, ∃ item,
    itemOf spelling (outsOf sel order) keystore (seen store sel row) = .ok item

namespace Turn

variable {store : Store spelling tables} {order : Option Order}

/-- The limit a request is held to, which is the scan's where it gives none. -/
def size (asked : Nat) (turn : Turn store sel order) : Nat :=
  match turn.limit with
  | none => asked
  | some text => (readLimit text).toOption.getD asked

/-- A row as a request is served it. -/
def shown (turn : Turn store sel order) (row : Row) : Json :=
  (itemOf spelling (outsOf sel order) turn.keystore (seen store sel row)).toOption.getD .null

theorem shown_ok (turn : Turn store sel order) {row : Row} (member : row ∈ store.rows sel.main.name) :
    itemOf spelling (outsOf sel order) turn.keystore (seen store sel row) = .ok (turn.shown row) := by
  obtain ⟨item, opened⟩ := turn.opens row member
  unfold shown
  rw [opened]
  rfl

theorem size_pos {asked : Nat} (positive : 0 < asked) (turn : Turn store sel order) :
    0 < turn.size asked := by
  unfold size
  cases given : turn.limit with
  | none => exact positive
  | some text =>
      obtain ⟨limit, read⟩ := turn.accepted text given
      dsimp only
      rw [read]
      exact readLimit_pos read

end Turn

/-- A statement reads the rows of the main table that its scan matches. -/
theorem select_eq (laid : Laid spelling tables) (picked : Picked tables sel)
    (store : Store spelling tables) (scan : Scan) :
    Statement.select
      ⟨(conditionsOf spelling sel.main scan).map (Statement.rename fun column => (Alias.left, column)),
        (orderColumns sel.main scan.order).map fun column => (Alias.left, column),
        descends scan.order, scan.limit⟩ (source spelling store sel) =
      ((matching spelling sel.main scan (store.rows sel.main.name)).take scan.limit).map
        (seen store sel) := by
  have distinct := places_distinct scan.order (store.distinct sel.main picked.main)
  have left (row : Row) : seen store sel row ∘ (fun column => (Alias.left, column)) = row := rfl
  unfold Statement.select
  rw [source_eq laid picked]
  dsimp only
  rw [Statement.sorted_rename _ (fun row _ => left row) distinct, ← List.map_take]
  rfl

/-- A statement reads the rows its scan matches, each with its cursor. -/
theorem select_ok (laid : Laid spelling tables) (picked : Picked tables sel)
    (sound : Sound spelling sel.main scan) (store : Store spelling tables)
    (turn : Turn store sel scan.order) :
    select spelling store sel scan turn.keystore =
      .ok (((matching spelling sel.main scan (store.rows sel.main.name)).take scan.limit).map
        fun row => (turn.shown row, markAfter sel.main scan.order row)) := by
  refine bind_ok.mpr ⟨_, outs_eq sound.orders, bind_ok.mpr ⟨_, (conditionsOf_eq sound).1, ?_⟩⟩
  rw [select_eq laid picked, List.mapM_map]
  apply mapM_ok
  intro row member
  have known : row ∈ store.rows sel.main.name :=
    (Statement.mem_sorted.mp (List.mem_of_mem_take member)).1
  rw [Function.comp_apply, turn.shown_ok known, afterAt_eq picked sound.orders]
  rfl

/-- A scan answers with the page that opens what it matches, and its rows are those
of any other selection of the same table. -/
theorem scanPage_ok (laid : Laid spelling tables) (picked : Picked tables sel)
    (sound : Sound spelling sel.main scan) (store : Store spelling tables)
    (turn : Turn store sel scan.order) :
    scanPage spelling codec store sel scan turn.keystore =
      .ok ⟨opening (markOf codec sel.main scan.order) turn.shown scan.limit
        (matching spelling sel.main scan (store.rows sel.main.name)), store.position⟩ := by
  have probe : Sound spelling sel.main { scan with limit := scan.limit + 1 } :=
    ⟨Nat.succ_pos _, sound.filter, sound.orders, sound.after⟩
  have fetched := select_ok laid picked probe store turn
  refine bind_ok.mpr ⟨_, fetched, ?_⟩
  have same : matching spelling sel.main { scan with limit := scan.limit + 1 }
      (store.rows sel.main.name) = matching spelling sel.main scan (store.rows sel.main.name) := rfl
  have shorter : min scan.limit (scan.limit + 1) = scan.limit := by omega
  dsimp only
  rw [same]
  unfold opening
  rw [← List.map_take, List.take_take, shorter, List.map_map, List.length_map, List.length_take,
    List.getLast?_map, Option.map_map]
  congr 2
  have more : scan.limit < min (scan.limit + 1)
        (matching spelling sel.main scan (store.rows sel.main.name)).length ↔
      scan.limit < (matching spelling sel.main scan (store.rows sel.main.name)).length := by
    omega
  simp only [more]
  rfl

/-! ## The request after a page -/

/-- A query string with the limit of a request and the cursor it hands back. -/
def paged (params : List (String × String)) (limit cursor : Option String) :
    List (String × String) :=
  params ++ limit.toList.map (fun text => ("limit", text)) ++
    cursor.toList.map fun text => ("cursor", text)

theorem reading_paged {params : List (String × String)} {reading : Reading}
    (read : params.foldlM (readParam spelling isUuid sel) {} = .ok reading)
    {store : Store spelling tables} {order : Option Order} (turn : Turn store sel order)
    (cursor : Option String) :
    (paged params turn.limit cursor).foldlM (readParam spelling isUuid sel) {} =
      .ok ⟨{ reading.scan with limit := turn.size reading.scan.limit }, cursor.or reading.cursor,
        reading.orderBy⟩ := by
  have limited : (turn.limit.toList.map fun text => ("limit", text)).foldlM
      (readParam spelling isUuid sel) reading =
      .ok { reading with scan := { reading.scan with limit := turn.size reading.scan.limit } } := by
    unfold Turn.size
    cases given : turn.limit with
    | none => rfl
    | some text =>
        obtain ⟨limit, accepted⟩ := turn.accepted text given
        dsimp only
        rw [Option.toList_some, List.map_singleton, List.foldlM_cons]
        unfold readParam
        rw [if_pos rfl, accepted]
        rfl
  unfold paged
  rw [List.foldlM_append, List.foldlM_append]
  refine bind_ok.mpr ⟨_, bind_ok.mpr ⟨_, read, limited⟩, ?_⟩
  cases cursor with
  | none => rfl
  | some raw => rfl

/-- The next request is read as the scan of the first, with its own limit, from the
place its cursor names. -/
theorem parseScan_paged {params : List (String × String)}
    (parsed : parseScan spelling isUuid codec sel params = .ok scan) {store : Store spelling tables}
    (turn : Turn store sel scan.order) :
    parseScan spelling isUuid codec sel (paged params turn.limit none) =
        .ok { scan with limit := turn.size scan.limit } ∧
      ∀ raw after, decodeCursor spelling isUuid codec sel raw scan.order = .ok after →
        parseScan spelling isUuid codec sel (paged params turn.limit (some raw)) =
          .ok { scan with limit := turn.size scan.limit, after := some after } := by
  obtain ⟨reading, read, parsed⟩ := bind_ok.mp parsed
  obtain ⟨order, settled, parsed⟩ := bind_ok.mp parsed
  obtain ⟨after, resumed, parsed⟩ := bind_ok.mp parsed
  cases parsed
  constructor
  · exact bind_ok.mpr ⟨_, reading_paged read turn none, bind_ok.mpr ⟨_, settled,
      bind_ok.mpr ⟨_, resumed, rfl⟩⟩⟩
  · intro raw found decoded
    have handed : afterOf spelling isUuid codec sel order (some raw) = .ok (some found) := by
      unfold afterOf
      dsimp only at decoded ⊢
      rw [decoded]
      rfl
    exact bind_ok.mpr ⟨_, reading_paged read turn (some raw), bind_ok.mpr ⟨_, settled,
      bind_ok.mpr ⟨_, handed, rfl⟩⟩⟩

/-- A cursor that is refused ends the request that hands it back. -/
theorem parseScan_refused {params : List (String × String)}
    (parsed : parseScan spelling isUuid codec sel params = .ok scan) {store : Store spelling tables}
    (turn : Turn store sel scan.order) {raw : String} {why : Refusal}
    (refused : decodeCursor spelling isUuid codec sel raw scan.order = .error why) :
    parseScan spelling isUuid codec sel (paged params turn.limit (some raw)) = .error why := by
  obtain ⟨reading, read, parsed⟩ := bind_ok.mp parsed
  obtain ⟨order, settled, parsed⟩ := bind_ok.mp parsed
  obtain ⟨after, resumed, parsed⟩ := bind_ok.mp parsed
  cases parsed
  have handed : afterOf spelling isUuid codec sel order (some raw) = .error why := by
    unfold afterOf
    dsimp only at refused ⊢
    rw [refused]
    rfl
  have settled' : settle sel ⟨{ reading.scan with limit := turn.size reading.scan.limit },
      (some raw).or reading.cursor, reading.orderBy⟩ = .ok order := settled
  unfold parseScan
  rw [reading_paged read turn (some raw)]
  change (settle sel _).bind _ = _
  rw [settled']
  change (afterOf spelling isUuid codec sel order (some raw)).bind _ = _
  rw [handed]
  rfl

/-! ## A reader that follows cursors -/

/-- The page a request is answered with, following a cursor. -/
def followed (isUuid : String → Bool) (codec : Codec Cursor) (store : Store spelling tables)
    (sel : Selection) (params : List (String × String)) {order : Option Order}
    (cursor : Option String) (turn : Turn store sel order) : Except Failed (Page Json String) :=
  (readRows spelling codec isUuid store sel turn.keystore (paged params turn.limit cursor)).map
    Served.page

theorem followed_ok (laid : Laid spelling tables) (picked : Picked tables sel)
    (store : Store spelling tables) {params : List (String × String)} {cursor : Option String}
    (next : Scan) (turn : Turn store sel next.order) (sound : Sound spelling sel.main next)
    (parsed : parseScan spelling isUuid codec sel (paged params turn.limit cursor) = .ok next) :
    followed isUuid codec store sel params cursor turn =
      .ok (opening (markOf codec sel.main next.order) turn.shown next.limit
        (matching spelling sel.main next (store.rows sel.main.name))) := by
  have served : readRows spelling codec isUuid store sel turn.keystore
      (paged params turn.limit cursor) = .ok ⟨opening (markOf codec sel.main next.order) turn.shown
        next.limit (matching spelling sel.main next (store.rows sel.main.name)), store.position⟩ :=
    bind_ok.mpr ⟨_, mapError_ok.mpr parsed, mapError_ok.mpr (scanPage_ok laid picked sound store turn)⟩
  unfold followed
  rw [served]
  rfl

/-- A table whose rows two of are matched has a key. -/
theorem keyed_of_two {table : TableDef} {rows done rest : List Row} {last : Row}
    (distinct : (rows.map fun row => table.keyColumns.map row).Nodup)
    (holds : ∀ row ∈ rows, table.Holds spelling row)
    (split : matching spelling table scan rows = done ++ rest) (ended : done.getLast? = some last)
    (more : rest ≠ []) : table.key ≠ [] := by
  intro keyless
  obtain ⟨next, later, rfl⟩ := List.exists_cons_of_ne_nil more
  obtain ⟨earlier, rfl⟩ := List.getLast?_eq_some_iff.mp ended
  have known {row : Row} (member : row ∈ earlier ++ [last] ++ next :: later) : row ∈ rows := by
    rw [← split] at member
    exact (Statement.mem_sorted.mp member).1
  have alone {row : Row} (member : row ∈ rows) : table.keyColumns.map row = [.integer 0] := by
    simp [TableDef.keyColumns, keyless, (holds row member).guarded keyless]
  have apart : ((matching spelling table scan rows).map fun row => table.keyColumns.map row).Nodup :=
    ((ordered_perm _ _ _).map _).nodup_iff.mpr (distinct.sublist (List.filter_sublist.map _))
  rw [split, List.append_assoc, List.map_append, List.nodup_append] at apart
  have both := (List.nodup_cons.mp apart.2.1).1
  refine both (List.mem_map.mpr ⟨next, List.mem_cons_self, ?_⟩)
  exact (alone (known (by simp))).trans (alone (known (by simp))).symm

/-- Handed the cursor of a row whose key passes its check, a scan opens at the row
that follows it. -/
theorem followed_resumes (lawful : spelling.Lawful) (written : codec.Lawful)
    (laid : Laid spelling tables) (picked : Picked tables sel) (store : Store spelling tables)
    {params : List (String × String)}
    (parsed : parseScan spelling isUuid codec sel params = .ok scan)
    (accepted : ∀ row ∈ (matching spelling sel.main scan (store.rows sel.main.name)).dropLast,
      Accepted spelling isUuid sel.main row) :
    Resumes (markOf codec sel.main scan.order) Turn.shown
      (fun turn : Turn store sel scan.order => turn.size scan.limit)
      (followed isUuid codec store sel params)
      (matching spelling sel.main scan (store.rows sel.main.name)) := by
  have formed := laid.formed sel.main picked.main
  have sound := sound_of_parseScan lawful formed parsed
  have distinct := store.distinct sel.main picked.main
  have holds := store.holds sel.main picked.main
  intro done rest turn split more
  obtain ⟨first, later⟩ := parseScan_paged parsed turn
  have positive := turn.size_pos sound.limit
  cases ended : done.getLast? with
  | none =>
      have same : matching spelling sel.main scan (store.rows sel.main.name) = rest := by
        rw [split, List.getLast?_eq_none_iff.mp ended, List.nil_append]
      have answered := followed_ok laid picked store { scan with limit := turn.size scan.limit } turn
        ⟨positive, sound.filter, sound.orders, sound.after⟩ first
      rw [← same]
      exact answered
  | some last =>
      have further : rest ≠ [] := by
        intro none_
        rw [more none_] at ended
        cases ended
      have member : last ∈ (matching spelling sel.main scan (store.rows sel.main.name)).dropLast := by
        rw [split, List.dropLast_append_of_ne_nil further]
        exact List.mem_append_left _ (List.mem_of_getLast? ended)
      have held : last ∈ matching spelling sel.main scan (store.rows sel.main.name) :=
        (List.dropLast_sublist _).subset member
      obtain ⟨known, admitted⟩ := Statement.mem_sorted.mp held
      rw [(conditionsOf_eq sound).2, Statement.admits_both, Bool.and_eq_true] at admitted
      have present := present_of_admits sound admitted.1
      have keyed := keyed_of_two distinct holds split ended further
      obtain ⟨after, decoded, resumed⟩ := decodeCursor_ok lawful written formed keyed
        (holds last known) sound.orders present (accepted last member)
      have next := later _ after decoded
      have placed := placed_of_present (holds last known) present
      have resumes : ∀ other, some after = some other → ∃ place,
          afterCondition spelling sel.main scan.order (some other) = .ok [Statement.after
            (orderColumns sel.main scan.order) (descends scan.order) place] ∧
          Placed sel.main scan.order place := by
        intro other same
        cases same
        exact ⟨_, resumed, placed⟩
      have answered := followed_ok laid picked store
        { scan with limit := turn.size scan.limit, after := some after } turn
        ⟨positive, sound.filter, sound.orders, resumes⟩ next
      have left := matching_resumed sound distinct holds split ended (turn.size scan.limit) resumed
      dsimp only at answered
      rw [left] at answered
      exact answered

/-- A reader that follows every cursor is dealt what its scan matches, whatever its
limits, and the cursor of every row that another follows is accepted. -/
structure Complete (isUuid : String → Bool) (codec : Codec Cursor) (store : Store spelling tables)
    (sel : Selection) (params : List (String × String)) (scan : Scan) : Prop where
  pages : ∀ turns : List (Turn store sel scan.order),
    Dealt (markOf codec sel.main scan.order) Turn.shown (fun turn => turn.size scan.limit) turns
      (matching spelling sel.main scan (store.rows sel.main.name))
      (walk (followed isUuid codec store sel params) none turns)
  accepted : ∀ row ∈ (matching spelling sel.main scan (store.rows sel.main.name)).dropLast,
    ∃ after, decodeCursor spelling isUuid codec sel (markOf codec sel.main scan.order row)
      scan.order = .ok after

theorem split_of_mem_dropLast {α : Type u} {items : List α} {item : α}
    (member : item ∈ items.dropLast) :
    ∃ done rest, items = done ++ rest ∧ done.getLast? = some item ∧ rest ≠ [] := by
  obtain ⟨earlier, later, split⟩ := List.append_of_mem member
  have some_ : items ≠ [] := by
    rintro rfl
    cases member
  refine ⟨earlier ++ [item], later ++ [items.getLast some_], ?_, by simp, by simp⟩
  conv_lhs => rw [← List.dropLast_append_getLast some_, split]
  simp

theorem accepted_of_complete (lawful : spelling.Lawful) (written : codec.Lawful)
    (laid : Laid spelling tables) (picked : Picked tables sel) (store : Store spelling tables)
    {params : List (String × String)} (complete : Complete isUuid codec store sel params scan) :
    ∀ row ∈ (matching spelling sel.main scan (store.rows sel.main.name)).dropLast,
      Accepted spelling isUuid sel.main row := by
  intro row member
  have distinct := store.distinct sel.main picked.main
  have holds := store.holds sel.main picked.main
  obtain ⟨done, rest, split, ended, more⟩ := split_of_mem_dropLast member
  have known := (Statement.mem_sorted.mp ((List.dropLast_sublist _).subset member)).1
  obtain ⟨after, read⟩ := complete.accepted row member
  exact accepted_of_decodeCursor lawful written (laid.formed sel.main picked.main)
    (keyed_of_two distinct holds split ended more) (holds row known) read

theorem complete_of_accepted (lawful : spelling.Lawful) (written : codec.Lawful)
    (laid : Laid spelling tables) (picked : Picked tables sel) (store : Store spelling tables)
    {params : List (String × String)}
    (parsed : parseScan spelling isUuid codec sel params = .ok scan)
    (accepted : ∀ row ∈ (matching spelling sel.main scan (store.rows sel.main.name)).dropLast,
      Accepted spelling isUuid sel.main row) : Complete isUuid codec store sel params scan := by
  have formed := laid.formed sel.main picked.main
  have sound := sound_of_parseScan lawful formed parsed
  have distinct := store.distinct sel.main picked.main
  have holds := store.holds sel.main picked.main
  constructor
  · intro turns
    exact walk_dealt (followed_resumes lawful written laid picked store parsed accepted)
      fun turn _ => turn.size_pos sound.limit
  · intro row member
    obtain ⟨done, rest, split, ended, more⟩ := split_of_mem_dropLast member
    obtain ⟨known, admitted⟩ := Statement.mem_sorted.mp ((List.dropLast_sublist _).subset member)
    rw [(conditionsOf_eq sound).2, Statement.admits_both, Bool.and_eq_true] at admitted
    obtain ⟨after, decoded, _⟩ := decodeCursor_ok lawful written formed
      (keyed_of_two distinct holds split ended more) (holds row known) sound.orders
      (present_of_admits sound admitted.1) (accepted row member)
    exact ⟨after, decoded⟩

/-- What a scan matches are rows of the main table that have a value in its
ordering, in the order of their places, whichever folds are asked for.  A reader
that follows every cursor is dealt them, each once, whatever its limits, exactly
where the key of every one of them but the last passes the check of a filter's
values. -/
theorem readRows_pages_iff (lawful : spelling.Lawful) (written : codec.Lawful)
    (laid : Laid spelling tables) (store : Store spelling tables) {names : List String}
    (picked : pick tables names = .ok sel) {params : List (String × String)}
    (parsed : parseScan spelling isUuid codec sel params = .ok scan) :
    (matching spelling sel.main scan (store.rows sel.main.name)).Perm
        ((store.rows sel.main.name).filter
          (Statement.admits (conditionsOf spelling sel.main scan))) ∧
      (∀ row ∈ matching spelling sel.main scan (store.rows sel.main.name),
        Present scan.order row) ∧
      (matching spelling sel.main scan (store.rows sel.main.name)).Pairwise (fun one other =>
        follows (descends scan.order) (placeOf (orderColumns sel.main scan.order) one)
          (placeOf (orderColumns sel.main scan.order) other)) ∧
      (∀ others other, pick tables others = .ok other → other.main = sel.main →
        ∀ turn : Turn store other scan.order,
          scanPage spelling codec store other scan turn.keystore =
            .ok ⟨opening (markOf codec sel.main scan.order) turn.shown scan.limit
              (matching spelling sel.main scan (store.rows sel.main.name)), store.position⟩) ∧
      (∀ turns : List (Turn store sel scan.order),
        (matching spelling sel.main scan (store.rows sel.main.name)).length ≤ turns.length →
          (chunks (turns.map fun turn => turn.size scan.limit)
            (matching spelling sel.main scan (store.rows sel.main.name))).flatten =
              matching spelling sel.main scan (store.rows sel.main.name)) ∧
      (Complete isUuid codec store sel params scan ↔
        ∀ row ∈ (matching spelling sel.main scan (store.rows sel.main.name)).dropLast,
          Accepted spelling isUuid sel.main row) := by
  have known := picked_of_pick laid picked
  have sound := sound_of_parseScan lawful (laid.formed sel.main known.main) parsed
  have distinct := places_distinct scan.order (store.distinct sel.main known.main)
  refine ⟨ordered_perm _ _ _, ?_, ordered_pairwise _ _ (distinct.sublist (List.filter_sublist.map _)),
    ?_, ?_, accepted_of_complete lawful written laid known store,
    complete_of_accepted lawful written laid known store parsed⟩
  · intro row member
    have admitted := (Statement.mem_sorted.mp member).2
    rw [(conditionsOf_eq sound).2, Statement.admits_both, Bool.and_eq_true] at admitted
    exact present_of_admits sound admitted.1
  · intro others other picked' same turn
    rw [← same] at sound ⊢
    exact scanPage_ok laid (picked_of_pick laid picked') sound store turn
  · intro turns many
    refine flatten_chunks_of_enough ?_ (by rwa [List.length_map])
    intro limit asked
    obtain ⟨turn, _, rfl⟩ := List.mem_map.mp asked
    exact turn.size_pos sound.limit

/-! ## Stock by its status -/

def cursorDocument (cursor : Cursor) : JsonText.Document :=
  [("t", .one cursor.table), ("k", .many cursor.key)] ++
    cursor.order.toList.map (fun token => ("o", .one token)) ++
    cursor.value.toList.map fun value => ("v", .one value)

def optionalText : Option JsonText.Member → Option (Option String)
  | none => some none
  | some (.one text) => some (some text)
  | some (.many _) => none

def cursorOfDocument (document : JsonText.Document) : Option Cursor := do
  let order ← optionalText (document.lookup "o")
  let value ← optionalText (document.lookup "v")
  match document.lookup "t", document.lookup "k" with
  | some (.one table), some (.many key) => some ⟨table, key, order, value⟩
  | _, _ => none

/-- A cursor is the text of a JSON object. -/
def cursorCodec : Codec Cursor := JsonText.codec cursorDocument cursorOfDocument

theorem cursorCodec_lawful : cursorCodec.Lawful := by
  refine JsonText.codec_lawful ?_
  rintro ⟨table, key, order, value⟩
  cases order <;> cases value <;> rfl

/-- A text of the length that a UUID is spelled at. -/
def looksUuid (text : String) : Bool := text.toList.length == 36

def stockCount : ColumnDef where
  name := "stock_count"
  fold := "StockCount"
  args := ["status"]
  default := some "0"
  field := { kind := .i64 }

/-- How many articles there are of each status, by the statuses declared now. -/
def stockTable : TableDef where
  name := "stock"
  source := "stock"
  key := [("status", { kind := .oneOf ["Active", "Sold"] })]
  columns := [stockCount]
  indexes := []
  sorts := []

theorem stock_laid : Laid newYear [stockTable] where
  names := by decide
  formed := by
    intro table member
    obtain rfl := List.mem_singleton.mp member
    refine ⟨by decide, ?_, by decide, nofun⟩
    intro column member _
    obtain rfl := List.mem_singleton.mp member
    exact .inr ⟨"0", by decide⟩
  split := by
    intro one member other member' _
    rw [List.mem_singleton.mp member, List.mem_singleton.mp member']

/-- The count of a status. -/
def stockRow (status : String) : Row
  | "status" => .text status
  | "stock_count" => .integer 1
  | _ => .null

theorem stockRow_holds (status : String) : stockTable.Holds newYear (stockRow status) where
  keyed := by
    intro part member
    obtain rfl := List.mem_singleton.mp member
    exact ⟨status, rfl⟩
  guarded := nofun
  celled := by
    intro column member _
    obtain rfl := List.mem_singleton.mp member
    have one : coerceValue newYear .i64 "1" = .ok (.integer 1) := by decide
    exact .inr ⟨"1", one⟩

/-- A store that has counted these statuses. -/
def stock (statuses : List String) (distinct : statuses.Nodup) : Store newYear [stockTable] where
  rows _ := statuses.map stockRow
  position := statuses.length
  distinct := by
    intro table member
    obtain rfl := List.mem_singleton.mp member
    rw [List.map_map]
    refine distinct.map ?_
    intro one other same
    have cells : [Cell.text one] = [Cell.text other] := same
    simpa using cells
  holds := by
    intro table member row known
    obtain rfl := List.mem_singleton.mp member
    obtain ⟨status, _, rfl⟩ := List.mem_map.mp known
    exact stockRow_holds status

def stockSelection : Selection where
  main := stockTable
  side := none
  opening := stockCount
  others := []

theorem stock_picked : pick [stockTable] ["StockCount"] = .ok stockSelection := rfl

theorem stock_parsed : parseScan newYear looksUuid cursorCodec stockSelection [] = .ok {} := rfl

theorem stock_accepted {statuses : List String} {distinct : statuses.Nodup}
    (declared : ∀ status ∈ statuses, status ∈ ["Active", "Sold"]) {row : Row}
    (known : row ∈ (stock statuses distinct).rows "stock") :
    Accepted newYear looksUuid stockTable row := by
  obtain ⟨status, listed, rfl⟩ := List.mem_map.mp known
  intro part member
  obtain rfl := List.mem_singleton.mp member
  exact declared status listed

theorem readRows_pages_stock :
    (matching newYear stockTable {}
        ((stock ["Sold", "Active"] (by decide)).rows "stock")).map (fun row => row "status") =
      [.text "Active", .text "Sold"] ∧
      Complete looksUuid cursorCodec (stock ["Sold", "Active"] (by decide)) stockSelection [] {} := by
  refine ⟨by decide, (readRows_pages_iff newYear_lawful cursorCodec_lawful stock_laid _ stock_picked
    stock_parsed).2.2.2.2.2.mpr ?_⟩
  intro row member
  exact stock_accepted (by decide) (Statement.mem_sorted.mp ((List.dropLast_sublist _).subset member)).1

/-- A reader of the whole table that asks for two rows at a time. -/
def twoByTwo (statuses : List String) (distinct : statuses.Nodup) :
    Turn (stock statuses distinct) stockSelection none where
  limit := some "2"
  keystore := none
  accepted := by
    intro text given
    cases given
    exact ⟨2, by decide⟩
  opens := by
    intro row known
    obtain ⟨status, _, rfl⟩ := List.mem_map.mp known
    exact ⟨_, rfl⟩

/-- A status that is no longer declared has its row, whose cursor is handed out and
then refused, so the row that follows it is never read. -/
theorem readRows_strands_retired :
    let store := stock ["Active", "Retired", "Sold"] (by decide)
    let turn := twoByTwo ["Active", "Retired", "Sold"] (by decide)
    let cursor := markOf cursorCodec stockTable none (stockRow "Retired")
    (matching newYear stockTable {} (store.rows "stock")).map (fun row => row "status") =
        [.text "Active", .text "Retired", .text "Sold"] ∧
      (∃ items, walk (followed looksUuid cursorCodec store stockSelection []) none [turn, turn] =
        [.ok ⟨items, some cursor⟩, .error (.refused bad)]) ∧
      ¬ Complete looksUuid cursorCodec store stockSelection [] {} := by
  intro store turn cursor
  have rows : matching newYear stockTable {} (store.rows "stock") =
      [stockRow "Active", stockRow "Retired", stockRow "Sold"] :=
    ordered_unique (follows false) (placeOf ["status"])
      (by decide : [stockRow "Active", stockRow "Retired", stockRow "Sold"].Pairwise fun one other =>
        follows false (placeOf ["status"] one) (placeOf ["status"] other)) (.refl _)
  have refused : decodeCursor newYear looksUuid cursorCodec stockSelection cursor none =
      .error bad := by
    change decodeCursor newYear looksUuid cursorCodec stockSelection
      (markOf cursorCodec stockSelection.main none (stockRow "Retired")) none = .error bad
    rw [decodeCursor_markOf cursorCodec_lawful (List.cons_ne_nil _ _)]
    rfl
  have picked := picked_of_pick stock_laid stock_picked
  have sound := sound_of_parseScan newYear_lawful (stock_laid.formed _ picked.main) stock_parsed
  have first := followed_ok stock_laid picked store { limit := 2 } turn
    ⟨by decide, sound.filter, sound.orders, sound.after⟩ (parseScan_paged stock_parsed turn).1
  have page : opening (markOf cursorCodec stockTable none) turn.shown 2
      (matching newYear stockTable { limit := 2 } (store.rows "stock")) =
      ⟨[turn.shown (stockRow "Active"), turn.shown (stockRow "Retired")], some cursor⟩ := by
    change opening _ _ 2 (matching newYear stockTable {} (store.rows "stock")) = _
    rw [rows]
    rfl
  have second : followed looksUuid cursorCodec store stockSelection [] (some cursor) turn =
      .error (.refused bad) := by
    unfold followed readRows
    rw [parseScan_refused stock_parsed turn refused]
    rfl
  refine ⟨?_, ⟨[turn.shown (stockRow "Active"), turn.shown (stockRow "Retired")], ?_⟩, ?_⟩
  · rw [rows]
    rfl
  · have served : followed looksUuid cursorCodec store stockSelection [] none turn = .ok
        ⟨[turn.shown (stockRow "Active"), turn.shown (stockRow "Retired")], some cursor⟩ :=
      first.trans (congrArg Except.ok page)
    rw [walk, served]
    dsimp only
    rw [walk, second]
  · intro complete
    have member : stockRow "Retired" ∈ (matching newYear stockTable {} (store.rows "stock")).dropLast := by
      rw [rows]
      simp
    obtain ⟨after, read⟩ := complete.accepted _ member
    cases refused.symm.trans read

end Hekla.Reads.Tables
