import Hekla.Library.Listing
import Hekla.Library.Passes
import Hekla.Reads.Columns

/-!
# A read model's table

A declared entity is one table, with a column for each field and one of them for
its primary key.  The projector puts whole rows and deletes them by key.  What
an entity that loaded is known to satisfy, and what every row of its table
holds, are carried by the types.
-/

namespace Hekla.Reads

open Hekla.Library Hekla.Host
open Hekla.Derived (FieldKind IndexDef)

/-- Query parameters that a read takes as controls. -/
def reservedQueryParams : List String := ["limit", "cursor", "after", "timeout_ms", "order_by"]

structure EntityDef where
  name : String
  key : String
  fields : List (String × FieldMeta)
  indexes : List IndexDef

/-- Why an entity does not load. -/
inductive Invalid where
  | tableName
  | indexName (index : String)
  | indexNamedAsKey (index : String)
  | keyUndeclared
  | keyOptional
  | keyUnordered (kind : FieldKind)
  | keySealed
  | subjectMissing (column subject : String)
  | indexUndeclared (index column : String)
  | indexSealed (index column : String)
  | reserved (field : String)
  deriving DecidableEq

/-- Ascii letters, digits and underscores, not starting with a digit. -/
def isSqlIdentifier (name : String) : Bool :=
  match name.toList with
  | [] => false
  | first :: rest =>
      (first.isAlpha || first == '_') && rest.all fun char => char.isAlphanum || char == '_'

namespace EntityDef

variable (entity : EntityDef)

def field (name : String) : Option FieldMeta :=
  (entity.fields.find? fun declared => declared.1 == name).map Prod.snd

/-- The columns an index is built over: those declared, then the key. -/
def indexColumns (index : IndexDef) : List String :=
  if index.columns.contains entity.key then index.columns else index.columns ++ [entity.key]

def filterableFields : List String := entity.key :: entity.indexes.flatMap IndexDef.columns

def keyProblems : List Invalid :=
  match entity.field entity.key with
  | none => [.keyUndeclared]
  | some field =>
      (if field.isNullable then [.keyOptional] else []) ++
      (if field.kind.isKeyable then [] else [.keyUnordered field.kind.base]) ++
      (if field.sealedUnder.isSome then [.keySealed] else [])

def columnProblem (index : IndexDef) (column : String) : List Invalid :=
  match entity.field column with
  | none => [.indexUndeclared index.name column]
  | some field => if field.sealedUnder.isSome then [.indexSealed index.name column] else []

/-- What is wrong with a declaration, in the order it is looked for. -/
def problems : List Invalid :=
  (if isSqlIdentifier entity.name then [] else [.tableName]) ++
  (entity.indexes.flatMap fun index =>
    (if isSqlIdentifier index.name then [] else [.indexName index.name]) ++
    (if index.name = entity.key then [.indexNamedAsKey index.name] else [])) ++
  entity.keyProblems ++
  (entity.fields.flatMap fun column =>
    match column.2.sealedUnder with
    | none => []
    | some filed =>
        if entity.fields.any fun other => other.2.identifies == some filed.subject then []
        else [.subjectMissing column.1 filed.subject]) ++
  (entity.indexes.flatMap fun index => index.columns.flatMap (entity.columnProblem index)) ++
  (entity.filterableFields.filter (reservedQueryParams.contains ·)).map .reserved

def validate : Except Invalid Unit :=
  match entity.problems with
  | [] => .ok ()
  | problem :: _ => .error problem

end EntityDef

/-- An entity that loaded.  A table has no two columns of one name. -/
structure Entity extends EntityDef where
  valid : toEntityDef.validate = .ok ()
  distinct : (fields.map Prod.fst).Nodup

namespace Entity

variable (entity : Entity)

theorem no_problems : entity.problems = [] := by
  have valid := entity.valid
  unfold EntityDef.validate at valid
  split at valid
  · assumption
  · cases valid

theorem key_declared : ∃ field, entity.field entity.key = some field ∧
    field.isNullable = false ∧ field.kind.isKeyable = true ∧ field.sealedUnder = none := by
  have clean := entity.no_problems
  simp only [EntityDef.problems, List.append_eq_nil_iff] at clean
  have keyed := clean.1.1.1.2
  unfold EntityDef.keyProblems at keyed
  cases found : entity.field entity.key with
  | none =>
      rw [found] at keyed
      cases keyed
  | some field =>
      rw [found] at keyed
      simp only [List.append_eq_nil_iff, ite_eq_right_iff, ite_eq_left_iff] at keyed
      refine ⟨field, rfl, ?_, ?_, ?_⟩
      · simpa using keyed.1.1
      · simpa using keyed.1.2
      · simpa using keyed.2

theorem index_declared {index : IndexDef} (declared : index ∈ entity.indexes) {column : String}
    (member : column ∈ index.columns) :
    ∃ field, entity.field column = some field ∧ field.sealedUnder = none := by
  have clean := entity.no_problems
  simp only [EntityDef.problems, List.append_eq_nil_iff, List.flatMap_eq_nil_iff] at clean
  have named := clean.1.2 index declared column member
  unfold EntityDef.columnProblem at named
  cases found : entity.field column with
  | none =>
      rw [found] at named
      cases named
  | some field =>
      rw [found] at named
      exact ⟨field, rfl, by simpa using named⟩

end Entity

/-! ## Rows -/

/-- The object of a row that a projector puts, each value in the form its column
holds.  A sealed value arrives as the ciphertext its key gives, or as null. -/
def storedRow (spelling : Spelling) (entity : EntityDef) (values : List (String × Json)) : Json :=
  .obj (values.map fun value => (value.1,
    match entity.field value.1 with
    | none => value.2
    | some field =>
        if field.sealedUnder.isSome then value.2 else storedForm spelling field.kind value.2))

/-- The cells of a row, in the order of the declared columns. -/
def bindRow (spelling : Spelling) (entity : EntityDef) (stored : Json) :
    Except String (List Cell) :=
  entity.fields.mapM fun column =>
    (toSql spelling column.2 ((stored.get column.1).getD .null)).mapError
      fun why => s!"column `{column.1}`: {why}"

/-- A row by the names of its columns. -/
def rowOf (entity : EntityDef) (cells : List Cell) : Row :=
  fun column => (((entity.fields.map Prod.fst).zip cells).lookup column).getD .null

/-- Whether a row leaves a column empty that may not be. -/
def breaksNotNull (entity : EntityDef) (row : Row) : Bool :=
  entity.fields.any fun column => !column.2.isNullable && row column.1 == .null

/-- What a stored row holds in each of its columns. -/
structure Stored (spelling : Spelling) (entity : Entity) (row : Row) : Prop where
  present : ∀ column field, entity.field column = some field → field.isNullable = false →
    row column ≠ .null
  spelled : ∀ column field, entity.field column = some field → field.kind.isKeyable = true →
    field.sealedUnder = none → row column ≠ .null → Spelled spelling field.kind (row column)

/-- The table of an entity, and how far the log has been projected into it. -/
structure ReadModel (spelling : Spelling) (entity : Entity) where
  rows : List Row
  position : Nat
  distinct : (rows.map fun row => row entity.key).Nodup
  stored : ∀ row ∈ rows, Stored spelling entity row

variable {spelling : Spelling} {entity : Entity}

theorem mem_fields {column : String} {field : FieldMeta} (named : entity.field column = some field) :
    (column, field) ∈ entity.fields := by
  unfold EntityDef.field at named
  obtain ⟨⟨name, field'⟩, found, rfl⟩ := Option.map_eq_some_iff.mp named
  have same : name = column := by simpa using List.find?_some found
  rw [← same]
  exact List.mem_of_find?_eq_some found

/-- A declared field is the one of its name. -/
theorem field_of_mem {column : String} {field : FieldMeta}
    (member : (column, field) ∈ entity.fields) : entity.field column = some field := by
  unfold EntityDef.field
  rw [find?_of_nodup Prod.fst entity.distinct member]
  rfl

/-- The cell of a column is the one bound for its field. -/
theorem lookup_bound {fields : List (String × FieldMeta)} (distinct : (fields.map Prod.fst).Nodup)
    (value : String → Json) {cells : List Cell}
    (bound : fields.mapM (fun column => (toSql spelling column.2 (value column.1)).mapError
      fun why => s!"column `{column.1}`: {why}") = .ok cells)
    {column : String} {field : FieldMeta} (member : (column, field) ∈ fields) :
    toSql spelling field (value column) =
      .ok ((((fields.map Prod.fst).zip cells).lookup column).getD .null) := by
  induction fields generalizing cells with
  | nil => cases member
  | cons first rest ih =>
      rw [List.mapM_cons, bind_ok] at bound
      obtain ⟨cell, opened, bound⟩ := bound
      obtain ⟨cells', further, ended⟩ := bind_ok.mp bound
      cases ended
      rw [mapError_ok] at opened
      rw [List.map_cons, List.nodup_cons] at distinct
      rw [List.map_cons, List.zip_cons_cons, List.lookup_cons]
      rcases List.mem_cons.mp member with same | later
      · rw [← same] at opened ⊢
        rw [beq_self_eq_true]
        exact opened
      · have apart : column ≠ first.1 := by
          intro same
          exact distinct.1 (same ▸ List.mem_map_of_mem later)
        rw [beq_eq_false_iff_ne.mpr apart]
        exact ih distinct.2 further later

/-- What a row that is put has for a column. -/
theorem storedRow_get {values : List (String × Json)} (distinct : (values.map Prod.fst).Nodup)
    {column : String} {json : Json} {field : FieldMeta} (member : (column, json) ∈ values)
    (named : entity.field column = some field) :
    (storedRow spelling entity.toEntityDef values).get column =
      some (if field.sealedUnder.isSome then json else storedForm spelling field.kind json) := by
  have found : values.find? (fun value => value.1 == column) = some (column, json) :=
    find?_of_nodup Prod.fst distinct member
  unfold storedRow Json.get
  dsimp only
  rw [List.find?_map]
  change Option.map _ (Option.map _ (values.find? fun value => value.1 == column)) = _
  rw [found]
  dsimp only [Option.map_some]
  rw [named]

/-- A row that is bound and breaks nothing is stored as it should be. -/
theorem stored_of_bound (lawful : spelling.Lawful) {values : List (String × Json)}
    {cells : List Cell} (bound : bindRow spelling entity.toEntityDef
      (storedRow spelling entity.toEntityDef values) = .ok cells)
    (whole : breaksNotNull entity.toEntityDef (rowOf entity.toEntityDef cells) = false) :
    Stored spelling entity (rowOf entity.toEntityDef cells) := by
  constructor
  · intro column field named required empty
    unfold breaksNotNull at whole
    rw [List.any_eq_false] at whole
    have held := whole _ (mem_fields named)
    simp [required, empty] at held
  · intro column field named keyable unsealed present
    have held := lookup_bound entity.distinct
      (fun name => ((storedRow spelling entity.toEntityDef values).get name).getD .null) bound
      (mem_fields named)
    change toSql spelling field _ = .ok (rowOf entity.toEntityDef cells column) at held
    cases given : (storedRow spelling entity.toEntityDef values).get column with
    | none =>
        rw [given] at held
        exact absurd (Except.ok.inj held).symm present
    | some json =>
        rw [given] at held
        unfold storedRow Json.get at given
        obtain ⟨⟨name, form⟩, found, rfl⟩ := Option.map_eq_some_iff.mp given
        have same : name = column := by simpa using List.find?_some found
        obtain ⟨⟨name', value⟩, _, formed⟩ := List.mem_map.mp (List.mem_of_find?_eq_some found)
        rw [Prod.mk.injEq] at formed
        obtain ⟨rfl, formed⟩ := formed
        dsimp only at formed same
        subst same
        rw [named] at formed
        dsimp only at formed
        rw [unsealed] at formed
        rw [← formed] at held
        exact spelled_of_toSql lawful keyable unsealed held present

/-- A row in place of any other of its key. -/
def replaced (key : String) (row : Row) (rows : List Row) : List Row :=
  (rows.filter fun held => held key != row key) ++ [row]

theorem replaced_distinct {key : String} {row : Row} {rows : List Row}
    (distinct : (rows.map fun held => held key).Nodup) :
    ((replaced key row rows).map fun held => held key).Nodup := by
  unfold replaced
  rw [List.map_append, List.nodup_append]
  refine ⟨distinct.sublist (List.filter_sublist.map _), List.nodup_singleton _, ?_⟩
  intro cell kept other last same
  obtain ⟨held, member, rfl⟩ := List.mem_map.mp kept
  obtain rfl := List.mem_singleton.mp last
  simpa [same] using (List.mem_filter.mp member).2

namespace ReadModel

variable (model : ReadModel spelling entity)

/-- Put a row, in place of any other of its key. -/
def put (lawful : spelling.Lawful) (values : List (String × Json)) :
    Except String (ReadModel spelling entity) :=
  match bound : bindRow spelling entity.toEntityDef (storedRow spelling entity.toEntityDef values) with
  | .error why => .error why
  | .ok cells =>
      if broken : breaksNotNull entity.toEntityDef (rowOf entity.toEntityDef cells) then
        .error "NOT NULL constraint failed"
      else
        .ok { model with
          rows := replaced entity.key (rowOf entity.toEntityDef cells) model.rows
          distinct := replaced_distinct model.distinct
          stored := by
            intro row member
            rcases List.mem_append.mp member with kept | last
            · exact model.stored row (List.mem_filter.mp kept).1
            · rw [List.mem_singleton.mp last]
              exact stored_of_bound lawful bound (Bool.eq_false_iff.mpr broken) }

/-- A put that does not fail replaces one row. -/
theorem put_ok {lawful : spelling.Lawful} {values : List (String × Json)}
    {next : ReadModel spelling entity} (put_ : model.put lawful values = .ok next) :
    ∃ cells, bindRow spelling entity.toEntityDef (storedRow spelling entity.toEntityDef values) =
        .ok cells ∧ breaksNotNull entity.toEntityDef (rowOf entity.toEntityDef cells) = false ∧
      next.rows = replaced entity.key (rowOf entity.toEntityDef cells) model.rows := by
  unfold put at put_
  split at put_
  · cases put_
  · next cells bound =>
      split at put_
      · cases put_
      · next whole =>
          cases put_
          exact ⟨cells, bound, Bool.eq_false_iff.mpr whole, rfl⟩

/-- Delete the row of a key. -/
def delete (key : String) : ReadModel spelling entity :=
  { model with
    rows := model.rows.filter fun row =>
      row entity.key != ((entity.field entity.key).elim (.text key) fun field =>
        bindOrText spelling field.kind key)
    distinct := model.distinct.sublist (List.filter_sublist.map _)
    stored := fun row member => model.stored row (List.mem_filter.mp member).1 }

end ReadModel

/-- A row as an object, without the columns that hold nothing. -/
def rowToJson (spelling : Spelling) (entity : EntityDef) (row : Row) : Json :=
  .obj (entity.fields.filterMap fun column =>
    let value := fromSql spelling column.2 (row column.1)
    if value.isNull then none else some (column.1, value))

/-- The row of a key, as an object. -/
def ReadModel.get (model : ReadModel spelling entity) (key : String) : Option Json :=
  (model.rows.find? fun row =>
    row entity.key == ((entity.field entity.key).elim (.text key) fun field =>
      bindOrText spelling field.kind key)).map (rowToJson spelling entity.toEntityDef)

theorem get_of_shown {fields : List (String × FieldMeta)} (distinct : (fields.map Prod.fst).Nodup)
    (show_ : String × FieldMeta → Json) {column : String × FieldMeta} (member : column ∈ fields)
    (present : (show_ column).isNull = false) :
    (Json.obj (fields.filterMap fun column =>
      if (show_ column).isNull then none else some (column.1, show_ column))).get column.1 =
      some (show_ column) := by
  induction fields with
  | nil => cases member
  | cons first rest ih =>
      rw [List.map_cons, List.nodup_cons] at distinct
      rcases List.mem_cons.mp member with same | later
      · rw [← same, List.filterMap_cons, present]
        simp [Json.get]
      · have further := ih distinct.2 later
        have apart : (first.1 == column.1) = false := by
          rw [beq_eq_false_iff_ne]
          intro same
          exact distinct.1 (same ▸ List.mem_map_of_mem later)
        rw [List.filterMap_cons]
        cases (show_ first).isNull with
        | true => exact further
        | false =>
            unfold Json.get at further ⊢
            dsimp only at further ⊢
            rw [if_neg Bool.false_ne_true]
            dsimp only
            rw [List.find?_cons_of_neg (by simp [apart])]
            exact further

theorem rowToJson_get {column : String} {field : FieldMeta} {row : Row}
    (named : entity.field column = some field)
    (present : (fromSql spelling field (row column)).isNull = false) :
    (rowToJson spelling entity.toEntityDef row).get column =
      some (fromSql spelling field (row column)) :=
  get_of_shown entity.distinct (fun column => fromSql spelling column.2 (row column.1))
    (mem_fields named) present

/-- A column that holds nothing is left out of the row. -/
theorem rowToJson_get_none {column : String} {field : FieldMeta} {row : Row}
    (named : entity.field column = some field)
    (empty : (fromSql spelling field (row column)).isNull = true) :
    (rowToJson spelling entity.toEntityDef row).get column = none := by
  unfold rowToJson Json.get
  rw [Option.map_eq_none_iff, List.find?_eq_none]
  rintro ⟨name, value⟩ member same
  obtain ⟨⟨name', field'⟩, declared, shown⟩ := List.mem_filterMap.mp member
  obtain rfl : name = column := by simpa using same
  dsimp only at shown
  cases hidden : (fromSql spelling field' (row name')).isNull with
  | true =>
      rw [hidden] at shown
      cases shown
  | false =>
      rw [hidden] at shown
      cases shown
      obtain rfl : field' = field :=
        Option.some.inj ((field_of_mem declared).symm.trans named)
      rw [empty] at hidden
      cases hidden

end Hekla.Reads
