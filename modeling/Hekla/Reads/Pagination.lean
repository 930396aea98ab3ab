import Hekla.Library.JsonText
import Hekla.Reads.Api

/-!
# Following a scan's cursors

The rows a scan matches stand in the order of the columns it sorts by, which end
in the key.  A cursor holds those columns of a row as they were served, and what
it binds is what the row has stored, so a scan that resumes at it leaves exactly
the rows that follow.
-/

namespace Hekla.Reads

open Hekla.Library Hekla.Host
open Hekla.Derived (FieldKind IndexDef)

/-! ## What a scan matches -/

variable (spelling : Spelling) (entity : Entity)

/-- The conditions of a filter, with its values as cells of their columns. -/
def filterConditions (entity : EntityDef) (filter : Filter) : List (Condition String) :=
  (filter.equals.map fun equal =>
    .compares [equal.1] .eq [bindAs spelling entity equal.1 equal.2]) ++
  filter.range.elim [] fun ranged =>
    ranged.2.bounds.map fun bound =>
      .compares [ranged.1] bound.1 [bindAs spelling entity ranged.1 bound.2]

/-- The rows a filter matches, in an ordering. -/
def matching (filter : Filter) (order : Order) (rows : List Row) : List Row :=
  Statement.sorted (filterConditions spelling entity.toEntityDef filter)
    (order.columns entity.toEntityDef) order.descending rows

variable {spelling entity}

/-! ## Values bound by position -/

/-- A condition as a clause without its values. -/
def clauseOf : Condition String → List (List String × Operator)
  | .compares columns operator _ => [(columns, operator)]
  | .present _ => []

def valuesOf : Condition String → List Cell
  | .compares _ _ bounds => bounds
  | .present _ => []

/-- Clauses given the values of some conditions, in order, are those conditions. -/
theorem bindClauses_conditions {conditions : List (Condition String)}
    (bound : ∀ condition ∈ conditions, ∃ columns operator bounds,
      condition = .compares columns operator bounds ∧ bounds.length = columns.length)
    (left : List Cell) :
    bindClauses (conditions.flatMap clauseOf) (conditions.flatMap valuesOf ++ left) =
      some (conditions, left) := by
  induction conditions with
  | nil => rfl
  | cons condition rest ih =>
      obtain ⟨columns, operator, bounds, rfl, width⟩ := bound condition List.mem_cons_self
      have further := ih fun later member => bound later (List.mem_cons_of_mem _ member)
      rw [List.flatMap_cons, List.flatMap_cons]
      simp only [clauseOf, valuesOf, List.cons_append, List.nil_append, List.append_assoc]
      rw [bindClauses, if_pos (by simp [width]), ← width, List.drop_left, List.take_left, further]
      rfl

theorem flatMap_map_singleton {α : Type u} {β : Type v} {γ : Type w} {made : α → β}
    {parts : β → List γ} {part : α → γ} (single : ∀ item, parts (made item) = [part item])
    (items : List α) : (items.map made).flatMap parts = items.map part := by
  induction items with
  | nil => rfl
  | cons item rest ih =>
      rw [List.map_cons, List.flatMap_cons, single, ih]
      rfl

theorem clauses_filterConditions (entity : EntityDef) (filter : Filter) :
    (filterConditions spelling entity filter).flatMap clauseOf =
      (filter.equals.map fun equal => ([equal.1], Operator.eq)) ++
      filter.range.elim [] fun ranged =>
        ranged.2.bounds.map fun bound => ([ranged.1], bound.1) := by
  unfold filterConditions
  rw [List.flatMap_append]
  congr 1
  · apply flatMap_map_singleton
    intro equal
    rfl
  · cases filter.range with
    | none => rfl
    | some ranged =>
        apply flatMap_map_singleton
        intro bound
        rfl

theorem values_filterConditions (entity : EntityDef) (filter : Filter) :
    (filterConditions spelling entity filter).flatMap valuesOf =
      filterBinds spelling entity filter := by
  unfold filterConditions filterBinds
  rw [List.flatMap_append]
  congr 1
  · apply flatMap_map_singleton
    intro equal
    rfl
  · cases filter.range with
    | none => rfl
    | some ranged =>
        apply flatMap_map_singleton
        intro bound
        rfl

theorem filterConditions_bound (entity : EntityDef) (filter : Filter) :
    ∀ condition ∈ filterConditions spelling entity filter, ∃ columns operator bounds,
      condition = .compares columns operator bounds ∧ bounds.length = columns.length := by
  intro condition member
  unfold filterConditions at member
  rcases List.mem_append.mp member with equal | ranged
  · obtain ⟨equal, _, rfl⟩ := List.mem_map.mp equal
    exact ⟨_, _, _, rfl, rfl⟩
  · cases range : filter.range with
    | none =>
        rw [range] at ranged
        cases ranged
    | some column =>
        rw [range] at ranged
        obtain ⟨bound, _, rfl⟩ := List.mem_map.mp ranged
        exact ⟨_, _, _, rfl, rfl⟩

/-- The conditions of a scan: its filter, and the place it resumes after. -/
def scanConditions (spelling : Spelling) (entity : EntityDef) (query : Query) : List (Condition String) :=
  filterConditions spelling entity query.filter ++
    if (usableCursor entity query).isSome then
      [Statement.after (query.order.columns entity) query.order.descending
        (cursorBinds spelling entity query)]
    else []

theorem length_cursorBinds {entity : EntityDef} {query : Query}
    (usable : (usableCursor entity query).isSome = true) :
    (cursorBinds spelling entity query).length = (query.order.columns entity).length := by
  obtain ⟨values, found⟩ := Option.isSome_iff_exists.mp usable
  unfold cursorBinds
  rw [found]
  unfold usableCursor at found
  have wide := (Option.filter_eq_some_iff.mp found).2
  simp [eq_of_beq wide]

/-- A scan's statement is bound to the conditions it is asked for. -/
theorem bind_scanSql (entity : EntityDef) (query : Query) (access : Access) (left : List Cell) :
    bindClauses (scanSql entity query access).clauses
      (filterBinds spelling entity query.filter ++ cursorBinds spelling entity query ++ left) =
        some (scanConditions spelling entity query, left) := by
  have bound : ∀ condition ∈ scanConditions spelling entity query, ∃ columns operator bounds,
      condition = .compares columns operator bounds ∧ bounds.length = columns.length := by
    intro condition member
    rcases List.mem_append.mp member with filtered | resumed
    · exact filterConditions_bound entity query.filter condition filtered
    · split at resumed
      · next usable =>
          rw [List.mem_singleton.mp resumed]
          exact ⟨_, _, _, rfl, length_cursorBinds usable⟩
      · cases resumed
  have clauses : (scanSql entity query access).clauses =
      (scanConditions spelling entity query).flatMap clauseOf := by
    unfold scanSql scanConditions
    rw [List.flatMap_append, clauses_filterConditions]
    split <;> simp [clauseOf, Statement.after]
  have binds : filterBinds spelling entity query.filter ++ cursorBinds spelling entity query =
      (scanConditions spelling entity query).flatMap valuesOf := by
    unfold scanConditions
    rw [List.flatMap_append, values_filterConditions]
    split
    · simp [valuesOf, Statement.after]
    · next unusable =>
        unfold cursorBinds
        rw [Option.not_isSome_iff_eq_none.mp unusable]
        rfl
  rw [clauses, binds]
  exact bindClauses_conditions bound left

/-- A scan reads the rows of its conditions, in order, up to its limit. -/
theorem scanRows_ok {entity : EntityDef} {query : Query} {access : Access}
    (chosen : chooseIndex entity query.filter query.order = some access)
    (small : query.limit < 2 ^ 63) (rows : List Row) :
    scanRows spelling entity rows query =
      .ok (((Statement.sorted (scanConditions spelling entity query) (query.order.columns entity)
        query.order.descending rows).take query.limit).map (rowToJson spelling entity)) := by
  have read : (Int64.ofNat query.limit).toNatClampNeg = query.limit := by
    rw [Int64.toNatClampNeg, Int64.toInt_ofNat_of_lt small, Int.toNat_natCast]
  have positive : ¬ Int64.ofNat query.limit < 0 := by
    rw [Int64.lt_iff_toInt_lt, Int64.toInt_ofNat_of_lt small]
    simp
  unfold scanRows scanStatement
  rw [chosen]
  change ((scanSql entity query access).run _ rows).bind _ = _
  unfold ScanSql.run
  rw [bind_scanSql]
  dsimp only
  rw [if_neg positive, read]
  rfl

/-! ## The columns of an ordering -/

/-- A request whose filter is served in an ordering it can ask for. -/
structure Admitted (spelling : Spelling) (entity : EntityDef) (filter : Filter) (order : Order) :
    Prop where
  chosen : ∃ access, chooseIndex entity filter order = some access
  orders : ∀ index, (entity.indexes.find? fun index => some index.name == order.index) =
    some index → orderingProblem entity index = none

theorem admitted_of_readOrder {entity : EntityDef} {filter : Filter} {orderBy : Option String}
    {order : Order} (read : readOrder spelling entity filter orderBy = .ok order) :
    Admitted spelling entity filter order := by
  unfold readOrder at read
  obtain ⟨asked, _, read⟩ := bind_ok.mp read
  obtain ⟨_, sorts, read⟩ := bind_ok.mp read
  obtain ⟨_, serves, read⟩ := bind_ok.mp read
  obtain ⟨_, _, read⟩ := bind_ok.mp read
  cases read
  constructor
  · unfold checkIndex at serves
    cases chosen : chooseIndex entity filter order with
    | none =>
        rw [chosen] at serves
        cases serves
    | some access => exact ⟨access, rfl⟩
  · intro index found
    unfold checkOrdering at sorts
    rw [found, Option.bind_some] at sorts
    cases problem : orderingProblem entity index with
    | none => rfl
    | some why =>
        rw [problem] at sorts
        cases sorts

/-- A column that rows can be sorted by. -/
def Sortable (entity : Entity) (column : String) : Prop :=
  ∃ field, entity.field column = some field ∧ field.isNullable = false ∧
    field.kind.isKeyable = true ∧ field.sealedUnder = none

theorem sortable_of_ordering {index : IndexDef} (declared : index ∈ entity.indexes)
    (sorts : orderingProblem entity.toEntityDef index = none) {column : String}
    (member : column ∈ index.columns) : Sortable entity column := by
  obtain ⟨field, named, unsealed⟩ := entity.index_declared declared member
  have clean := List.findSome?_eq_none_iff.mp sorts column member
  unfold columnProblem at clean
  rw [named] at clean
  dsimp only at clean
  split at clean
  · cases clean
  · next required =>
      split at clean
      · next comparable =>
          have required := Bool.not_eq_true _ ▸ required
          have plain : field.kind.base = field.kind := by
            unfold FieldMeta.isNullable FieldKind.isNullable at required
            unfold FieldKind.base
            split
            · next kind =>
                rw [kind] at required
                cases required
            · rfl
          rw [plain] at comparable
          exact ⟨field, named, required, FieldKind.keyable_of_comparable comparable, unsealed⟩
      · cases clean

theorem sortable_key (entity : Entity) : Sortable entity entity.key := entity.key_declared

variable {filter : Filter} {order : Order}

theorem key_mem_columns (entity : EntityDef) (order : Order) : entity.key ∈ order.columns entity := by
  unfold Order.columns
  split
  · exact List.mem_singleton_self _
  · split
    · next index _ =>
        unfold EntityDef.indexColumns
        split
        · next contains => exact List.contains_iff_mem.mp contains
        · exact List.mem_append_right _ (List.mem_singleton_self _)
    · exact List.mem_singleton_self _

/-- Every column of an ordering that can be asked for sorts rows. -/
theorem Admitted.sortable (admitted : Admitted spelling entity.toEntityDef filter order)
    {column : String} (member : column ∈ order.columns entity.toEntityDef) :
    Sortable entity column := by
  unfold Order.columns at member
  split at member
  · rw [List.mem_singleton.mp member]
    exact sortable_key entity
  · next name named =>
      split at member
      · next index found =>
          have declared := List.mem_of_find?_eq_some found
          have sorts := admitted.orders index (by
            rw [named]
            simpa using found)
          unfold EntityDef.indexColumns at member
          split at member
          · exact sortable_of_ordering declared sorts member
          · rcases List.mem_append.mp member with listed | last
            · exact sortable_of_ordering declared sorts listed
            · rw [List.mem_singleton.mp last]
              exact sortable_key entity
      · rw [List.mem_singleton.mp member]
        exact sortable_key entity

/-! ## A cursor's place -/

/-- What a row is served as in a column, as the text a cursor takes. -/
def servedText (spelling : Spelling) (entity : EntityDef) (row : Row) (column : String) : String :=
  (((rowToJson spelling entity row).get column).bind scalarString).getD ""

/-- A sorted column of a stored row is served as a text that binds to its cell. -/
theorem served_binds (lawful : spelling.Lawful) {row : Row} (stored : Stored spelling entity row)
    {column : String} (sortable : Sortable entity column) :
    ((rowToJson spelling entity.toEntityDef row).get column).bind scalarString =
        some (servedText spelling entity.toEntityDef row column) ∧
      bindAs spelling entity.toEntityDef column
        (servedText spelling entity.toEntityDef row column) = row column := by
  obtain ⟨field, named, required, keyable, unsealed⟩ := sortable
  have present := stored.present column field named required
  have spelled := stored.spelled column field named keyable unsealed present
  obtain ⟨text, scalar, bound⟩ := Spelled.served lawful keyable unsealed spelled
  have shown : (fromSql spelling field (row column)).isNull = false := by
    cases value : fromSql spelling field (row column) with
    | null =>
        rw [value] at scalar
        cases scalar
    | _ => rfl
  have got := rowToJson_get named shown
  have text_ : servedText spelling entity.toEntityDef row column = text := by
    unfold servedText
    rw [got, Option.bind_some, scalar, Option.getD_some]
  rw [text_, got, Option.bind_some]
  refine ⟨scalar, ?_⟩
  unfold bindAs
  rw [named]
  exact bound

theorem zip_map_map {α : Type u} {β : Type v} {γ : Type w} (text : α → β) (bind_ : α × β → γ)
    (items : List α) :
    (items.zip (items.map text)).map bind_ = items.map fun item => bind_ (item, text item) := by
  induction items with
  | nil => rfl
  | cons item rest ih => simp [ih]

/-- The cursor that is made from a row. -/
def cursorOf (spelling : Spelling) (entity : EntityDef) (order : Order) (row : Row) : Cursor :=
  ⟨order.token entity, (order.columns entity).map (servedText spelling entity row)⟩

variable {codec : Codec Cursor} {model : ReadModel spelling entity} {row : Row}

theorem cursorAt_ok (lawful : spelling.Lawful)
    (admitted : Admitted spelling entity.toEntityDef filter order)
    (stored : Stored spelling entity row) {query : Query} (same : query.order = order) :
    cursorAt entity.toEntityDef codec query (rowToJson spelling entity.toEntityDef row) =
      .ok (codec.encode (cursorOf spelling entity.toEntityDef order row)) := by
  unfold cursorAt
  rw [same]
  have texts : (order.columns entity.toEntityDef).mapM
      (columnText (rowToJson spelling entity.toEntityDef row)) =
      .ok ((order.columns entity.toEntityDef).map (servedText spelling entity.toEntityDef row)) := by
    apply mapM_ok
    intro column member
    unfold columnText
    rw [(served_binds lawful stored (admitted.sortable member)).1]
  rw [texts]
  rfl

/-- What a cursor of a row binds is the row's place. -/
theorem cursorBinds_cursorOf (lawful : spelling.Lawful)
    (admitted : Admitted spelling entity.toEntityDef filter order)
    (stored : Stored spelling entity row) (limit : Nat) :
    (usableCursor entity.toEntityDef
        ⟨filter, order, some (cursorOf spelling entity.toEntityDef order row), limit⟩).isSome = true ∧
      cursorBinds spelling entity.toEntityDef
        ⟨filter, order, some (cursorOf spelling entity.toEntityDef order row), limit⟩ =
        placeOf (order.columns entity.toEntityDef) row := by
  have usable : usableCursor entity.toEntityDef
      ⟨filter, order, some (cursorOf spelling entity.toEntityDef order row), limit⟩ =
      some ((order.columns entity.toEntityDef).map
        (servedText spelling entity.toEntityDef row)) := by
    simp [usableCursor, cursorOf]
  unfold cursorBinds
  rw [usable]
  refine ⟨rfl, ?_⟩
  dsimp only
  rw [zip_map_map]
  refine List.map_congr_left ?_
  intro column member
  exact (served_binds lawful stored (admitted.sortable member)).2

theorem place_present (admitted : Admitted spelling entity.toEntityDef filter order)
    (stored : Stored spelling entity row) :
    .null ∉ placeOf (order.columns entity.toEntityDef) row := by
  intro held
  obtain ⟨column, member, empty⟩ := List.mem_map.mp held
  obtain ⟨field, named, required, _⟩ := admitted.sortable member
  exact stored.present column field named required empty

/-- No two rows share a place, because every ordering ends in the key. -/
theorem places_distinct (model : ReadModel spelling entity) (order : Order) :
    (model.rows.map (placeOf (order.columns entity.toEntityDef))).Nodup := by
  have keys := model.distinct
  rw [List.nodup_iff_pairwise_ne, List.pairwise_map] at keys ⊢
  refine keys.imp ?_
  intro one other apart same
  exact apart (List.map_inj_left.mp same entity.key (key_mem_columns entity.toEntityDef order))

/-! ## A reader that follows cursors -/

/-- One request of a reader that pages through a model: how many rows it asks
for, and the keys there are when it is served, which may be fewer each time.
The masters are there, so what does not decrypt is left out. -/
structure Turn (model : ReadModel spelling entity) where
  limit : Option Nat
  keystore : Option KeyStore
  opens : ∀ row ∈ model.rows, ∃ shown,
    decryptRow spelling entity.toEntityDef keystore (rowToJson spelling entity.toEntityDef row) =
      .ok shown

namespace Turn

/-- The limit that a request is held to. -/
def size (turn : Turn model) : Nat := pageLimit turn.limit

/-- A row as a request is served it. -/
def shown (turn : Turn model) (row : Row) : Json :=
  match decryptRow spelling entity.toEntityDef turn.keystore
    (rowToJson spelling entity.toEntityDef row) with
  | .ok json => json
  | .error _ => rowToJson spelling entity.toEntityDef row

theorem shown_ok (turn : Turn model) {row : Row} (member : row ∈ model.rows) :
    decryptRow spelling entity.toEntityDef turn.keystore
      (rowToJson spelling entity.toEntityDef row) = .ok (turn.shown row) := by
  obtain ⟨json, opened⟩ := turn.opens row member
  unfold shown
  rw [opened]

theorem size_pos (turn : Turn model) : 0 < turn.size := Nat.lt_of_lt_of_le Nat.one_pos (Nat.le_max_left _ _)

theorem size_le (turn : Turn model) : turn.size ≤ maxLimit :=
  Nat.max_le.mpr ⟨by decide, Nat.min_le_right _ _⟩

end Turn

/-- The page a request is answered with, following a cursor. -/
def followed (codec : Codec Cursor) (model : ReadModel spelling entity) (filter : Filter)
    (orderBy : Option String) (cursor : Option String) (turn : Turn model) :
    Except Refused (Page Json String) :=
  (readScan spelling entity.toEntityDef codec model.rows model.position turn.keystore
    ⟨filter, orderBy, cursor, turn.limit⟩).map Served.page

/-- The cursor text of a row. -/
def markOf (spelling : Spelling) (entity : EntityDef) (codec : Codec Cursor) (order : Order)
    (row : Row) : String := codec.encode (cursorOf spelling entity order row)

theorem nextCursor_ok (lawful : spelling.Lawful)
    (admitted : Admitted spelling entity.toEntityDef filter order) {rest : List Row}
    (stored : ∀ row ∈ rest, Stored spelling entity row) {query : Query} (same : query.order = order) :
    nextCursor entity.toEntityDef codec query
        ((rest.take (query.limit + 1)).map (rowToJson spelling entity.toEntityDef)) =
      .ok (if query.limit < rest.length then
        (rest.take query.limit).getLast?.map (markOf spelling entity.toEntityDef codec order)
      else none) := by
  have more : query.limit < ((rest.take (query.limit + 1)).map
      (rowToJson spelling entity.toEntityDef)).length ↔ query.limit < rest.length := by
    rw [List.length_map, List.length_take]
    omega
  have shorter : min query.limit (query.limit + 1) = query.limit := by omega
  unfold nextCursor
  by_cases further : query.limit < rest.length
  · rw [if_pos (more.mpr further), if_pos further, ← List.map_take, List.take_take, shorter,
      List.getLast?_map]
    cases last : (rest.take query.limit).getLast? with
    | none => rfl
    | some row =>
        have member := List.mem_of_mem_take (List.mem_of_getLast? last)
        dsimp only [Option.map_some]
        rw [cursorAt_ok lawful admitted (stored row member) same]
        rfl
  · rw [if_neg (fun fetched => further (more.mp fetched)), if_neg further]

/-- A scan answers with the page that opens what it is left to match. -/
theorem scan_ok (lawful : spelling.Lawful)
    (admitted : Admitted spelling entity.toEntityDef filter order) (turn : Turn model)
    {cursor : Option Cursor} {rest : List Row}
    (left : Statement.sorted
      (scanConditions spelling entity.toEntityDef ⟨filter, order, cursor, turn.size + 1⟩)
      (order.columns entity.toEntityDef) order.descending model.rows = rest) :
    scan spelling entity.toEntityDef codec model.rows model.position
        ⟨filter, order, cursor, turn.size⟩ turn.keystore =
      .ok ⟨opening (markOf spelling entity.toEntityDef codec order) turn.shown turn.size rest,
        model.position⟩ := by
  obtain ⟨access, chosen⟩ := admitted.chosen
  have kept : ∀ row ∈ rest, row ∈ model.rows := by
    intro row member
    rw [← left] at member
    exact (Statement.mem_sorted.mp member).1
  have small : turn.size + 1 < 2 ^ 63 :=
    Nat.lt_of_le_of_lt (Nat.succ_le_succ turn.size_le) (by decide)
  have fetched : scanRows spelling entity.toEntityDef model.rows
      ⟨filter, order, cursor, turn.size + 1⟩ =
        .ok ((rest.take (turn.size + 1)).map (rowToJson spelling entity.toEntityDef)) := by
    rw [← left]
    exact scanRows_ok chosen small model.rows
  have next : nextCursor entity.toEntityDef codec ⟨filter, order, cursor, turn.size⟩
      ((rest.take (turn.size + 1)).map (rowToJson spelling entity.toEntityDef)) =
        .ok (if turn.size < rest.length then
          (rest.take turn.size).getLast?.map (markOf spelling entity.toEntityDef codec order)
        else none) :=
    nextCursor_ok lawful admitted (fun row member => model.stored row (kept row member)) rfl
  have items : (((rest.take (turn.size + 1)).map (rowToJson spelling entity.toEntityDef)).take
      turn.size).mapM (decryptRow spelling entity.toEntityDef turn.keystore) =
      .ok ((rest.take turn.size).map turn.shown) := by
    have shorter : min turn.size (turn.size + 1) = turn.size := by omega
    rw [← List.map_take, List.take_take, shorter, List.mapM_map]
    apply mapM_ok
    intro row member
    exact turn.shown_ok (kept row (List.mem_of_mem_take member))
  exact bind_ok.mpr ⟨_, fetched, bind_ok.mpr ⟨_, next, bind_ok.mpr ⟨_, items, rfl⟩⟩⟩

/-- A cursor of a row is read back in the ordering it was taken in. -/
theorem readCursor_ok (written : codec.Lawful) (entity : EntityDef) (order : Order) (row : Row) :
    readCursor entity codec order (markOf spelling entity codec order row) =
      .ok (cursorOf spelling entity order row) := by
  unfold readCursor markOf
  rw [Codec.decode_encode written]
  simp [cursorOf]

theorem scanConditions_none (entity : EntityDef) (filter : Filter) (order : Order) (limit : Nat) :
    scanConditions spelling entity ⟨filter, order, none, limit⟩ =
      filterConditions spelling entity filter := by
  unfold scanConditions usableCursor
  rw [if_neg (by simp), List.append_nil]

theorem scanConditions_cursorOf (lawful : spelling.Lawful)
    (admitted : Admitted spelling entity.toEntityDef filter order)
    (stored : Stored spelling entity row) (limit : Nat) :
    scanConditions spelling entity.toEntityDef
        ⟨filter, order, some (cursorOf spelling entity.toEntityDef order row), limit⟩ =
      filterConditions spelling entity.toEntityDef filter ++
        [Statement.after (order.columns entity.toEntityDef) order.descending
          (placeOf (order.columns entity.toEntityDef) row)] := by
  obtain ⟨usable, place⟩ := cursorBinds_cursorOf lawful admitted stored limit
  unfold scanConditions
  rw [if_pos usable, place]

/-- Handed the cursor of a row, a scan opens at the row that follows it. -/
theorem followed_resumes (lawful : spelling.Lawful) (written : codec.Lawful)
    (model : ReadModel spelling entity) {orderBy : Option String}
    (read : readOrder spelling entity.toEntityDef filter orderBy = .ok order) :
    Resumes (markOf spelling entity.toEntityDef codec order) Turn.shown Turn.size
      (followed codec model filter orderBy) (matching spelling entity filter order model.rows) := by
  intro done rest turn split _
  have admitted := admitted_of_readOrder read
  have answered {cursor : Option Cursor} {raw : Option String}
      (resumed : resumeAt entity.toEntityDef codec order raw = .ok cursor)
      (left : Statement.sorted
        (scanConditions spelling entity.toEntityDef ⟨filter, order, cursor, turn.size + 1⟩)
        (order.columns entity.toEntityDef) order.descending model.rows = rest) :
      followed codec model filter orderBy raw turn =
        .ok (opening (markOf spelling entity.toEntityDef codec order) turn.shown turn.size rest) := by
    have served : readScan spelling entity.toEntityDef codec model.rows model.position
        turn.keystore ⟨filter, orderBy, raw, turn.limit⟩ = .ok ⟨opening
          (markOf spelling entity.toEntityDef codec order) turn.shown turn.size rest,
          model.position⟩ :=
      bind_ok.mpr ⟨order, read, bind_ok.mpr ⟨cursor, resumed,
        mapError_ok.mpr (scan_ok lawful admitted turn left)⟩⟩
    unfold followed
    rw [served]
    rfl
  cases ended : done.getLast? with
  | none =>
      rw [List.getLast?_eq_none_iff.mp ended, List.nil_append] at split
      refine answered rfl ?_
      rw [scanConditions_none]
      exact split
  | some last =>
      have held : last ∈ matching spelling entity filter order model.rows := by
        rw [split]
        exact List.mem_append_left _ (List.mem_of_getLast? ended)
      have stored := model.stored last (Statement.mem_sorted.mp held).1
      have resumed : resumeAt entity.toEntityDef codec order
          (some (markOf spelling entity.toEntityDef codec order last)) =
            .ok (some (cursorOf spelling entity.toEntityDef order last)) := by
        change (readCursor entity.toEntityDef codec order
          (markOf spelling entity.toEntityDef codec order last)).map some = _
        rw [readCursor_ok written]
        rfl
      refine answered resumed ?_
      rw [scanConditions_cursorOf lawful admitted stored]
      exact Statement.sorted_after (places_distinct model order)
        (fun row member _ => place_present admitted (model.stored row member)) split ended

def cursorDocument (cursor : Cursor) : JsonText.Document :=
  [("o", .one cursor.ordering), ("v", .many cursor.values)]

def cursorOfDocument (document : JsonText.Document) : Option Cursor :=
  match document.lookup "o", document.lookup "v" with
  | some (.one ordering), some (.many values) => some ⟨ordering, values⟩
  | _, _ => none

/-- A cursor is the text of a JSON object. -/
def cursorCodec : Codec Cursor := JsonText.codec cursorDocument cursorOfDocument

theorem cursorCodec_lawful : cursorCodec.Lawful := JsonText.codec_lawful fun _ => rfl

/-- The spellings of one instant, half a second past the new year. -/
def newYear : Spelling where
  timestamp text :=
    if text = "2024-01-01T00:00:00.5Z" ∨ text = "2024-01-01T00:00:00.500000Z" then
      some 1704067200500000
    else none
  rfc3339 micros := if micros = 1704067200500000 then some "2024-01-01T00:00:00.5Z" else none
  storedTimestamp micros :=
    if micros = 1704067200500000 then some "2024-01-01T00:00:00.500000Z" else none
  jsonText _ := "null"
  jsonOf text := if text = "null" then some .null else none

theorem newYear_lawful : newYear.Lawful where
  stored_reads := by
    intro micros text stored
    obtain ⟨rfl, spelt⟩ := Option.ite_none_right_eq_some.mp stored
    cases spelt
    decide
  served_reads := by
    intro micros text served
    obtain ⟨rfl, spelt⟩ := Option.ite_none_right_eq_some.mp served
    cases spelt
    decide
  same_range := by
    intro micros
    unfold newYear
    dsimp only
    split <;> rfl

def placedOrders : Entity where
  name := "orders"
  key := "id"
  fields := [("id", { kind := .text none }), ("placed_at", { kind := .timestamp })]
  indexes := [⟨"by_placed", ["placed_at"]⟩]
  valid := by decide
  distinct := by decide

/-- An order of this name, placed at the new year. -/
def placedOrder (id : String) : Row
  | "id" => .text id
  | "placed_at" => .text "2024-01-01T00:00:00.500000Z"
  | _ => .null

theorem placedOrder_stored (id : String) : Stored newYear placedOrders (placedOrder id) := by
  have each (column : String) (field : FieldMeta)
      (named : placedOrders.field column = some field) :
      column = "id" ∧ field.kind = .text none ∨ column = "placed_at" ∧ field.kind = .timestamp := by
    have member := mem_fields named
    simp only [placedOrders, List.mem_cons, Prod.mk.injEq, List.not_mem_nil, or_false] at member
    rcases member with ⟨rfl, rfl⟩ | ⟨rfl, rfl⟩
    · exact .inl ⟨rfl, rfl⟩
    · exact .inr ⟨rfl, rfl⟩
  constructor
  · intro column field named _
    rcases each column field named with ⟨rfl, -⟩ | ⟨rfl, -⟩ <;> exact Cell.noConfusion
  · intro column field named _ _ _
    rcases each column field named with ⟨rfl, kind⟩ | ⟨rfl, kind⟩ <;> rw [kind]
    · exact ⟨id, rfl⟩
    · exact stored_timestamp_spelled newYear_lawful (show newYear.storedTimestamp 1704067200500000 =
        some "2024-01-01T00:00:00.500000Z" by decide)

def tiedOrders : ReadModel newYear placedOrders where
  rows := [placedOrder "a", placedOrder "c", placedOrder "b"]
  position := 3
  distinct := by decide
  stored := by
    intro row member
    simp only [List.mem_cons, List.not_mem_nil, or_false] at member
    rcases member with rfl | rfl | rfl <;> exact placedOrder_stored _

def oneByOne : Turn tiedOrders where
  limit := some 1
  keystore := none
  opens := fun _ _ => ⟨_, rfl⟩

end Hekla.Reads
