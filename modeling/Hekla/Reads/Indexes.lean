import Hekla.Derived.IndexNames
import Hekla.Reads.ReadModel

/-!
# The indexes of a read model

Opening a read model makes the table of every entity and the indexes it declares, in one
transaction.  An index that is there over other columns is dropped first, as one that is
there is not made again, whatever it is over.  The names of tables and indexes are one
namespace, in which letters of either case are the same.
-/

namespace Hekla.Reads

open Hekla.Library Hekla.Host
open Hekla.Derived (FieldKind IndexDef)

/-! ## What a declaration asks for -/

def FieldMeta.sqlType (field : FieldMeta) : String :=
  if field.sealedUnder.isSome then "TEXT" else field.kind.sqlType

namespace EntityDef

variable (entity : EntityDef)

/-- The name a declared index goes by in the database. -/
def indexName (declared : String) : String := entity.name ++ "_" ++ declared

def table : String := folded entity.name

/-- `create_table_sql`: the columns of the table. -/
def specs : List (String × ColumnSpec) :=
  entity.fields.map fun column =>
    (folded column.1, { sqlType := column.2.sqlType, notNull := !column.2.isNullable })

/-- `create_index_sql`: what an index is over. -/
def shape (index : IndexDef) : IndexShape :=
  ⟨entity.table, (entity.indexColumns index).map folded⟩

/-- The names of the declared indexes, each with what it is over. -/
def wanted : List (String × IndexShape) :=
  entity.indexes.map fun index => (folded (entity.indexName index.name), entity.shape index)

end EntityDef

/-! ## Opening -/

/-- Drop an index that is over other columns than those wanted. -/
def dropReshaped (schema : Schema) (wanted : String × IndexShape) : Schema :=
  match schema.indexes.get wanted.1 with
  | none => schema
  | some live => if live.columns = wanted.2.columns then schema else schema.dropIndex wanted.1

/-- `drop_reshaped_indexes` -/
def dropReshapedIndexes (entity : EntityDef) (schema : Schema) : Schema :=
  entity.wanted.foldl dropReshaped schema

/-- The indexes of an entity that are not there. -/
def createIndexes (entity : EntityDef) (schema : Schema) : Except DdlError Schema :=
  entity.wanted.foldlM (fun schema wanted =>
    schema.createIndex wanted.1 wanted.2.table wanted.2.columns) schema

/-- The table of an entity, and its indexes. -/
def openEntity (schema : Schema) (entity : EntityDef) : Except DdlError Schema := do
  let schema ← schema.createTable entity.table entity.specs [folded entity.key]
  createIndexes entity (dropReshapedIndexes entity schema)

/-- The file of a read model. -/
structure File where
  format : Int
  schema : Schema

/-- No file yet. -/
def File.blank : File := ⟨0, .empty⟩

def format : Int := 1

/-- Empty a read model written in another format. -/
def reformat (file : File) : Except DdlError File :=
  if file.format = format then .ok file
  else (file.schema.tables.keys.foldlM Schema.dropTable file.schema).map fun schema =>
    ⟨format, schema⟩

/-- The columns of the tables that hold the checkpoint and the definition. -/
def internalTables : List (String × List (String × ColumnSpec)) :=
  [("_hekla_checkpoint", [("id", { sqlType := "INTEGER", notNull := false, check := some "id = 0" }),
      ("position", { sqlType := "INTEGER", notNull := true }),
      ("completed_above", { sqlType := "TEXT", notNull := true, default := some "'[]'" })]),
    ("_hekla_definition", [("id", { sqlType := "INTEGER", notNull := false, check := some "id = 0" }),
      ("definition_hash", { sqlType := "TEXT", notNull := false })])]

def createInternal (file : File) : Except DdlError File :=
  (internalTables.foldlM (fun (schema : Schema) table =>
    schema.createTable table.1 table.2 ["id"]) file.schema).map fun schema => { file with schema }

/-- The entities of a projector, in one transaction. -/
def createEntities (entities : List EntityDef) (file : File) : Except DdlError File :=
  (entities.foldlM openEntity file.schema).map fun schema => { file with schema }

/-- `ReadModel::open`, and the file it leaves.  What was committed before a failure stays. -/
def openModel (entities : List EntityDef) (file : File) : Except DdlError Unit × File :=
  match reformat file with
  | .error why => (.error why, file)
  | .ok formatted =>
      match createInternal formatted with
      | .error why => (.error why, formatted)
      | .ok started =>
          match createEntities entities started with
          | .error why => (.error why, started)
          | .ok opened => (.ok (), opened)

/-! ## What stands under a name -/

/-- What an entity makes of the index that stands under a name. -/
def settle (entity : EntityDef) (name : String) (live : Option IndexShape) : Option IndexShape :=
  (live.filter fun live =>
    entity.wanted.all fun wanted => wanted.1 != name || live.columns == wanted.2.columns).or
    ((entity.wanted.find? fun wanted => wanted.1 == name).map Prod.snd)

section Names

variable {entity : EntityDef} {name : String}

theorem get_dropReshaped (schema : Schema) (wanted : String × IndexShape) :
    (dropReshaped schema wanted).indexes.get name = (schema.indexes.get name).filter fun live =>
      wanted.1 != name || live.columns == wanted.2.columns := by
  unfold dropReshaped
  by_cases here : wanted.1 = name
  · rw [here]
    cases found : schema.indexes.get name with
    | none => simp [found]
    | some live =>
        by_cases same : live.columns = wanted.2.columns
        · simp [same, found, Option.filter]
        · simp [same, Schema.dropIndex, Option.filter]
  · have passes : ((schema.indexes.get name).filter fun live =>
        wanted.1 != name || live.columns == wanted.2.columns) = schema.indexes.get name := by
      cases schema.indexes.get name <;> simp [here]
    rw [passes]
    cases schema.indexes.get wanted.1 with
    | none => rfl
    | some live =>
        by_cases same : live.columns = wanted.2.columns
        · simp [same]
        · simp [same, Schema.dropIndex, Ne.symm here]

theorem get_dropReshapedIndexes (schema : Schema) :
    (dropReshapedIndexes entity schema).indexes.get name =
      (schema.indexes.get name).filter fun live =>
        entity.wanted.all fun wanted => wanted.1 != name || live.columns == wanted.2.columns := by
  unfold dropReshapedIndexes
  induction entity.wanted generalizing schema with
  | nil => cases found : schema.indexes.get name <;> simp [found, Option.filter]
  | cons wanted rest ih =>
      rw [List.foldl_cons, ih, get_dropReshaped, Option.filter_filter]
      congr 1

theorem createIndexes_ok {wanted : List (String × IndexShape)} {schema next : Schema}
    (created : wanted.foldlM (fun schema wanted =>
      schema.createIndex wanted.1 wanted.2.table wanted.2.columns) schema = .ok next) :
    next.indexes.get name = (schema.indexes.get name).or
      ((wanted.find? fun wanted => wanted.1 == name).map Prod.snd) := by
  induction wanted generalizing schema with
  | nil =>
      cases created
      exact (Option.or_none).symm
  | cons first rest ih =>
      obtain ⟨middle, stepped, created⟩ := foldlM_cons_ok.mp created
      rw [ih created, (Schema.createIndex_ok stepped).2]
      by_cases here : name = first.1
      · rw [if_pos here, List.find?_cons_of_pos (by simp [here]), ← here]
        cases schema.indexes.get name <;> rfl
      · rw [if_neg here, List.find?_cons_of_neg (by simpa using Ne.symm here)]

theorem openEntity_ok {schema next : Schema} (opened : openEntity schema entity = .ok next) :
    next.indexes.get name = settle entity name (schema.indexes.get name) := by
  unfold openEntity at opened
  obtain ⟨middle, created, opened⟩ := bind_ok.mp opened
  have same : middle.indexes = schema.indexes := by
    rcases Schema.createTable_ok created with ⟨rfl, -⟩ | ⟨-, -, rfl⟩
    · rfl
    · rfl
  unfold createIndexes at opened
  rw [createIndexes_ok opened, get_dropReshapedIndexes, same]
  rfl

theorem openEntities_ok {entities : List EntityDef} {schema next : Schema}
    (opened : entities.foldlM openEntity schema = .ok next) :
    next.indexes.get name =
      entities.foldl (fun live entity => settle entity name live) (schema.indexes.get name) := by
  induction entities generalizing schema with
  | nil =>
      cases opened
      rfl
  | cons entity rest ih =>
      obtain ⟨middle, stepped, opened⟩ := foldlM_cons_ok.mp opened
      rw [ih opened, openEntity_ok stepped, List.foldl_cons]

/-- An entity leaves the index of a name that is none of its own. -/
theorem settle_unwanted (unwanted : ∀ wanted ∈ entity.wanted, wanted.1 ≠ name)
    (live : Option IndexShape) : settle entity name live = live := by
  have none_ : (entity.wanted.find? fun wanted => wanted.1 == name) = none := by
    rw [List.find?_eq_none]
    intro wanted member
    simpa using unwanted wanted member
  have passes : (live.filter fun live =>
      entity.wanted.all fun wanted => wanted.1 != name || live.columns == wanted.2.columns) = live := by
    cases live with
    | none => rfl
    | some live =>
        rw [Option.filter_some, if_pos]
        rw [List.all_eq_true]
        intro wanted member
        simp [unwanted wanted member]
  unfold settle
  rw [none_, passes]
  exact Option.or_none

/-- Under a name of its own it leaves one that was there over the columns it wants, or the
first it wants. -/
theorem settle_wanted {wanted : String × IndexShape} (member : wanted ∈ entity.wanted)
    (named : wanted.1 = name) (live : Option IndexShape) :
    ∃ stands, settle entity name live = some stands ∧
      ((live = some stands ∧
          ∀ other ∈ entity.wanted, other.1 = name → stands.columns = other.2.columns) ∨
        ∃ other ∈ entity.wanted, other.1 = name ∧ stands = other.2) := by
  have found : (entity.wanted.find? fun wanted => wanted.1 == name).isSome = true :=
    List.find?_isSome.mpr ⟨wanted, member, beq_iff_eq.mpr named⟩
  obtain ⟨first, found⟩ := Option.isSome_iff_exists.mp found
  unfold settle
  rw [found]
  cases kept : live.filter fun live =>
      entity.wanted.all fun wanted => wanted.1 != name || live.columns == wanted.2.columns with
  | none =>
      have here : first.1 = name := by simpa using List.find?_some found
      exact ⟨first.2, rfl, .inr ⟨first, List.mem_of_find?_eq_some found, here, rfl⟩⟩
  | some stands =>
      obtain ⟨was, same⟩ := Option.filter_eq_some_iff.mp kept
      refine ⟨stands, rfl, .inl ⟨was, ?_⟩⟩
      intro other listed here
      have held := List.all_eq_true.mp same other listed
      simpa [here] using held

end Names

/-! ## The names of several declarations -/

/-- The indexes some entities declare, by their names in the database. -/
def declared (entities : List EntityDef) : List (String × IndexShape) :=
  entities.flatMap EntityDef.wanted

/-- No two declarations over different tables share a name. -/
def TablesApart (wanted : List (String × IndexShape)) : Prop :=
  ∀ one ∈ wanted, ∀ other ∈ wanted, one.1 = other.1 → one.2.table = other.2.table

/-- No two different declarations share a name. -/
def NamesApart (wanted : List (String × IndexShape)) : Prop :=
  ∀ one ∈ wanted, ∀ other ∈ wanted, one.1 = other.1 → one.2 = other.2

/-- Every index is over the table of a declaration of its name. -/
def Owned (wanted : List (String × IndexShape)) (schema : Schema) : Prop :=
  ∀ name live, schema.indexes.get name = some live →
    ∃ declared ∈ wanted, declared.1 = name ∧ live.table = declared.2.table

section Declared

variable {entities : List EntityDef} {name : String}

theorem mem_declared {entity : EntityDef} (member : entity ∈ entities) {wanted : String × IndexShape}
    (listed : wanted ∈ entity.wanted) : wanted ∈ declared entities :=
  List.mem_flatMap.mpr ⟨entity, member, listed⟩

/-- What stands under a name stood there over the same table, or was made for a declaration. -/
theorem foldl_settle_some {live : Option IndexShape} {stands : IndexShape}
    (settled : entities.foldl (fun live entity => settle entity name live) live = some stands) :
    live = some stands ∨ ∃ wanted ∈ declared entities, wanted.1 = name ∧ stands = wanted.2 := by
  induction entities generalizing live with
  | nil => exact .inl settled
  | cons entity rest ih =>
      rw [List.foldl_cons] at settled
      rcases ih settled with here | ⟨wanted, listed, made⟩
      · by_cases named : ∃ wanted ∈ entity.wanted, wanted.1 = name
        · obtain ⟨wanted, listed, named⟩ := named
          obtain ⟨kept, same, ⟨was, _⟩ | ⟨other, among, made⟩⟩ := settle_wanted listed named live
          · cases same.symm.trans here
            exact .inl was
          · cases same.symm.trans here
            exact .inr ⟨other, mem_declared List.mem_cons_self among, made⟩
        · rw [settle_unwanted fun wanted listed same => named ⟨wanted, listed, same⟩] at here
          exact .inl here
      · exact .inr ⟨wanted, List.mem_flatMap.mpr (by
          obtain ⟨entity', member, listed⟩ := List.mem_flatMap.mp listed
          exact ⟨entity', List.mem_cons_of_mem _ member, listed⟩), made⟩

/-- A name that nothing declares is left as it is. -/
theorem foldl_settle_unwanted (unwanted : ∀ wanted ∈ declared entities, wanted.1 ≠ name)
    (live : Option IndexShape) :
    entities.foldl (fun live entity => settle entity name live) live = live := by
  induction entities generalizing live with
  | nil => rfl
  | cons entity rest ih =>
      rw [List.foldl_cons, settle_unwanted fun wanted listed =>
        unwanted wanted (mem_declared List.mem_cons_self listed)]
      refine ih (fun wanted listed => unwanted wanted ?_) live
      exact List.mem_append_right _ listed

/-- Under a declared name something stands. -/
theorem foldl_settle_wanted {wanted : String × IndexShape} (listed : wanted ∈ declared entities)
    (named : wanted.1 = name) (live : Option IndexShape) :
    ∃ stands, entities.foldl (fun live entity => settle entity name live) live = some stands ∧
      (NamesApart (declared entities) → stands.columns = wanted.2.columns) := by
  induction entities generalizing live wanted with
  | nil => cases listed
  | cons entity rest ih =>
      rw [List.foldl_cons]
      have later (apart : NamesApart (declared (entity :: rest))) : NamesApart (declared rest) :=
        fun one first other second =>
          apart one (List.mem_append_right _ first) other (List.mem_append_right _ second)
      by_cases again : ∃ other ∈ declared rest, other.1 = name
      · obtain ⟨other, among, same⟩ := again
        obtain ⟨stands, settled, over_⟩ := ih among same (settle entity name live)
        refine ⟨stands, settled, fun apart => ?_⟩
        rw [over_ (later apart),
          apart wanted listed other (List.mem_append_right _ among) (named.trans same.symm)]
      · rw [foldl_settle_unwanted fun other among same => again ⟨other, among, same⟩]
        have own : wanted ∈ entity.wanted := by
          refine (List.mem_append.mp listed).resolve_right fun among => ?_
          exact again ⟨wanted, among, named⟩
        obtain ⟨stands, settled, ⟨_, same⟩ | ⟨other, among, here, rfl⟩⟩ := settle_wanted own named live
        · exact ⟨stands, settled, fun _ => same wanted own named⟩
        · refine ⟨other.2, settled, fun apart => ?_⟩
          rw [apart wanted listed other (List.mem_append_left _ among) (named.trans here.symm)]

end Declared

/-! ## Opens of a file -/

/-- The file after some opens, each under declarations of its own, whatever became of them. -/
def reopened (sets : List (List EntityDef)) (file : File) : File :=
  sets.foldl (fun file entities => (openModel entities file).2) file

section Opens

variable {entities : List EntityDef} {wanted : List (String × IndexShape)} {file next : File}

/-- The indexes that a file of another format is emptied of are gone. -/
theorem reformat_indexes (done : reformat file = .ok next) (name : String) :
    next.schema.indexes.get name =
      if file.format = format then file.schema.indexes.get name else none := by
  unfold reformat at done
  split at done
  · next same =>
      cases done
      rw [if_pos same]
  · next other =>
      rw [if_neg other]
      obtain ⟨schema, dropped, rfl⟩ := map_ok.mp done
      cases found : schema.indexes.get name with
      | none => rfl
      | some live =>
          obtain ⟨shape, there⟩ := schema.placed name live found
          cases (Schema.dropTables_all dropped live.table).symm.trans there

theorem createInternal_indexes (done : createInternal file = .ok next) :
    next.schema.indexes = file.schema.indexes := by
  unfold createInternal at done
  obtain ⟨schema, created, rfl⟩ := map_ok.mp done
  refine pass_keeps (fun _ => True) (fun held : Schema => held.indexes = file.schema.indexes) ?_
    (fun _ _ => trivial) rfl created
  intro held after table _ same made
  rcases Schema.createTable_ok made with ⟨rfl, -⟩ | ⟨-, -, rfl⟩
  · exact same
  · exact same

theorem createEntities_indexes (done : createEntities entities file = .ok next) (name : String) :
    next.schema.indexes.get name =
      entities.foldl (fun live entity => settle entity name live) (file.schema.indexes.get name) := by
  unfold createEntities at done
  obtain ⟨schema, created, rfl⟩ := map_ok.mp done
  exact openEntities_ok created

/-- What stands under a name once a file was opened. -/
theorem openModel_ok (opened : (openModel entities file).1 = .ok ()) (name : String) :
    (openModel entities file).2.schema.indexes.get name =
      entities.foldl (fun live entity => settle entity name live)
        (if file.format = format then file.schema.indexes.get name else none) := by
  unfold openModel at opened ⊢
  cases emptied : reformat file with
  | error why =>
      rw [emptied] at opened
      cases opened
  | ok formatted =>
      rw [emptied] at opened
      dsimp only at opened ⊢
      cases started : createInternal formatted with
      | error why =>
          rw [started] at opened
          cases opened
      | ok started_ =>
          rw [started] at opened
          dsimp only at opened ⊢
          cases created : createEntities entities started_ with
          | error why =>
              rw [created] at opened
              cases opened
          | ok next =>
              dsimp only
              rw [createEntities_indexes created, createInternal_indexes started,
                reformat_indexes emptied]

/-- An open leaves every index over the table of a declaration of its name. -/
theorem Owned.openModel (owned : Owned wanted file.schema)
    (listed : ∀ other ∈ declared entities, other ∈ wanted) :
    Owned wanted (openModel entities file).2.schema := by
  have formatted_owned {formatted : File} (emptied : reformat file = .ok formatted) :
      Owned wanted formatted.schema := by
    intro name live there
    rw [reformat_indexes emptied] at there
    split at there
    · exact owned name live there
    · cases there
  unfold Reads.openModel
  cases emptied : reformat file with
  | error why => exact owned
  | ok formatted =>
      dsimp only
      have owned := formatted_owned emptied
      cases started : createInternal formatted with
      | error why => exact owned
      | ok started_ =>
          dsimp only
          have same := createInternal_indexes started
          have owned : Owned wanted started_.schema := fun name live there =>
            owned name live (same ▸ there)
          cases created : createEntities entities started_ with
          | error why => exact owned
          | ok next =>
              intro name live there
              dsimp only at there
              rw [createEntities_indexes created] at there
              rcases foldl_settle_some there with was | ⟨other, among, named, rfl⟩
              · exact owned name live was
              · exact ⟨other, listed other among, named, rfl⟩

theorem Owned.reopened {sets : List (List EntityDef)} (owned : Owned wanted file.schema)
    (listed : ∀ other ∈ declared sets.flatten, other ∈ wanted) :
    Owned wanted (reopened sets file).schema := by
  induction sets generalizing file with
  | nil => exact owned
  | cons entities rest ih =>
      refine ih (owned.openModel fun other among => listed other ?_) fun other among => listed other ?_
      · obtain ⟨entity, member, own⟩ := List.mem_flatMap.mp among
        exact mem_declared (List.mem_flatten_of_mem List.mem_cons_self member) own
      · obtain ⟨entity, member, own⟩ := List.mem_flatMap.mp among
        rw [List.flatten_cons]
        exact mem_declared (List.mem_append_right _ member) own

theorem owned_blank (wanted : List (String × IndexShape)) : Owned wanted File.blank.schema := by
  intro name live there
  cases there

/-- After any opens under any declarations, of which no two over different tables share a
name, an open that succeeds leaves every index it declares on its table. -/
theorem declared_placed {history : List (List EntityDef)}
    (tables : TablesApart (declared (history.flatten ++ entities)))
    (opened : (openModel entities (reopened history .blank)).1 = .ok ())
    {asked : String × IndexShape} (listed : asked ∈ declared entities) :
    ∃ live, (openModel entities (reopened history .blank)).2.schema.indexes.get asked.1 = some live ∧
      live.table = asked.2.table ∧
      (NamesApart (declared entities) → live.columns = asked.2.columns) := by
  have split : declared (history.flatten ++ entities) = declared history.flatten ++ declared entities :=
    List.flatMap_append
  have before : Owned (declared (history.flatten ++ entities)) (reopened history .blank).schema := by
    refine (owned_blank _).reopened fun other among => ?_
    rw [split]
    exact List.mem_append_left _ among
  have after : Owned (declared (history.flatten ++ entities))
      (openModel entities (reopened history .blank)).2.schema := by
    refine before.openModel fun other among => ?_
    rw [split]
    exact List.mem_append_right _ among
  obtain ⟨live, settled, columns⟩ := foldl_settle_wanted listed rfl
    (if (reopened history .blank).format = format then
      (reopened history .blank).schema.indexes.get asked.1 else none)
  rw [← openModel_ok opened] at settled
  obtain ⟨other, among, named, placed⟩ := after asked.1 live settled
  refine ⟨live, settled, ?_, columns⟩
  rw [placed]
  refine tables other among asked ?_ named
  rw [split]
  exact List.mem_append_right _ listed

/-- If its own declarations share none either, over its columns. -/
theorem declared_stands {history : List (List EntityDef)}
    (tables : TablesApart (declared (history.flatten ++ entities)))
    (names : NamesApart (declared entities))
    (opened : (openModel entities (reopened history .blank)).1 = .ok ())
    {asked : String × IndexShape} (listed : asked ∈ declared entities) :
    (openModel entities (reopened history .blank)).2.schema.indexes.get asked.1 = some asked.2 := by
  obtain ⟨live, stands, table, columns⟩ := declared_placed tables opened listed
  have same : live = asked.2 := by
    obtain ⟨table', columns'⟩ := live
    obtain ⟨name, table'', columns''⟩ := asked
    cases table
    cases columns names
    rfl
  rw [stands, same]

/-- An index that an open does not declare stays as it is, unless the file is of another
format and is emptied. -/
theorem undeclared_stays (opened : (openModel entities file).1 = .ok ()) {name : String}
    (unwanted : ∀ other ∈ declared entities, other.1 ≠ name) :
    (openModel entities file).2.schema.indexes.get name =
      if file.format = format then file.schema.indexes.get name else none := by
  rw [openModel_ok opened, foldl_settle_unwanted unwanted]

/-- A file that was opened is of this format. -/
theorem openModel_format (entities : List EntityDef) (file : File) :
    (openModel entities file).2.format = format ∨ (openModel entities file).2 = file := by
  unfold openModel
  cases emptied : reformat file with
  | error why => exact .inr rfl
  | ok formatted =>
      dsimp only
      have current : formatted.format = format := by
        unfold reformat at emptied
        split at emptied
        · next same =>
            cases emptied
            exact same
        · obtain ⟨schema, _, rfl⟩ := map_ok.mp emptied
          rfl
      cases started : createInternal formatted with
      | error why => exact .inl current
      | ok started_ =>
          have kept : started_.format = formatted.format := by
            unfold createInternal at started
            obtain ⟨schema, _, rfl⟩ := map_ok.mp started
            rfl
          dsimp only
          cases created : createEntities entities started_ with
          | error why => exact .inl (kept.trans current)
          | ok next =>
              unfold createEntities at created
              obtain ⟨schema, _, rfl⟩ := map_ok.mp created
              exact .inl (kept.trans current)

/-- A file of another format, after opens that began with none, is still none. -/
theorem reopened_format (sets : List (List EntityDef)) {file : File}
    (started : file.format = format ∨ file = .blank) :
    (reopened sets file).format = format ∨ reopened sets file = .blank := by
  induction sets generalizing file with
  | nil => exact started
  | cons entities rest ih =>
      refine ih ?_
      rcases openModel_format entities file with current | same
      · exact .inl current
      · dsimp only
        rw [same]
        exact started

end Opens

/-! ## Both stores -/

/-- After opens of a read model under any declarations, of which no two over different tables
share a name, one whose own declarations share none leaves every index it declares on its
table over its columns, and none that it does not declare is touched.  After deploys of
derived tables of which no two indexes share a name, an apply leaves on each table exactly
the indexes it asks for. -/
theorem generated_indexes :
    (∀ (history : List (List EntityDef)) (entities : List EntityDef),
      TablesApart (declared (history.flatten ++ entities)) → NamesApart (declared entities) →
      (openModel entities (reopened history .blank)).1 = .ok () →
      let before := reopened history .blank
      let after := (openModel entities before).2
      (∀ asked ∈ declared entities, after.schema.indexes.get asked.1 = some asked.2) ∧
      ∀ name, (∀ other ∈ declared entities, other.1 ≠ name) →
        after.schema.indexes.get name = before.schema.indexes.get name) ∧
    ∀ (naming : Derived.Naming) (spelling : Derived.Spelling) (first session : Derived.Session)
      (actions : List (Derived.Action naming)) (program : Derived.Deployable naming)
      (changes : List Derived.Change),
      first.disk.format ≠ Derived.formatVersion → first.opened = false →
      (∀ action ∈ actions, action.Spelled spelling) →
      run Derived.step first actions = some session → session.opened = true →
      program.Spelled spelling → (Derived.apply program false session.disk).1 = .ok changes →
      ∀ table ∈ program.tables, ∀ name index,
        ((Derived.apply program false session.disk).2.schema.indexes.get name = some index ∧
            index.table = table.name) ↔
          ∃ asked ∈ table.indexes, name = table.indexName asked ∧
            index = ⟨table.name, asked.columns⟩ := by
  constructor
  · intro history entities tables names opened
    refine ⟨fun asked listed => declared_stands tables names opened listed, ?_⟩
    intro name unwanted
    rw [undeclared_stays opened unwanted]
    rcases reopened_format history (.inr rfl : File.blank.format = format ∨ File.blank = .blank) with
      current | blank
    · rw [if_pos current]
    · rw [blank]
      rfl
  · intro naming spelling first session actions program changes foreign closed spelled ran opened
      spells done
    exact Derived.applied_indexes foreign closed spelled ran opened spells done

/-! ## Orders by status, and by nothing -/

/-- Orders with a key and the indexes they are declared with. -/
def statusOrders (key : String) (indexes : List IndexDef) : EntityDef where
  name := "orders"
  key := key
  fields := [("id", { kind := .text none }), ("code", { kind := .text none }),
    ("status", { kind := .text none })]
  indexes := indexes

open Derived.Visits in
/-- The index by status is made again when another key is to end it.  Of derived tables the
index of an arm that pins another part takes the place of the one before. -/
theorem rekeyed_index :
    (openModel [statusOrders "code" [⟨"by_status", ["status"]⟩]]
      (reopened [[statusOrders "id" [⟨"by_status", ["status"]⟩]]] .blank)).2.schema.indexes.get
        "orders_by_status" = some ⟨"orders", ["status", "code"]⟩ ∧
    ∃ session, run Derived.step ⟨⟨0, .empty, none, none⟩, false⟩
        [.open (program "shop") none, .apply (program "shop") false, .open (program "day") none] =
        some session ∧
      let after := (Derived.apply (program "day") false session.disk).2.schema
      after.indexes.get "t1_by_day" = some ⟨"t1", ["day"]⟩ ∧
      ∀ columns, after.indexes.get "t1_by_shop" ≠ some ⟨"t1", columns⟩ := by
  constructor
  · exact (generated_indexes.1 [[statusOrders "id" [⟨"by_status", ["status"]⟩]]]
      [statusOrders "code" [⟨"by_status", ["status"]⟩]] (by unfold TablesApart; decide)
      (by unfold NamesApart; decide) (by decide)).1
        ("orders_by_status", ⟨"orders", ["status", "code"]⟩) (by decide)
  · have ended : (run Derived.step ⟨⟨0, .empty, none, none⟩, false⟩
        [.open (program "shop") none, .apply (program "shop") false, .open (program "day") none]).any
          (fun session => session.opened &&
            (Derived.apply (program "day") false session.disk).1.isOk) = true := by decide
    obtain ⟨session, ran, ended⟩ := (Option.any_eq_true _ _).mp ended
    rw [Bool.and_eq_true] at ended
    cases done : (Derived.apply (program "day") false session.disk).1 with
    | error error =>
        rw [done] at ended
        cases ended.2
    | ok changes =>
        have asked_iff := generated_indexes.2 naming spelling _ session _ (program "day") changes
          (by decide) rfl ?_ ran ended.1 (program_spelled "day" (.inr rfl)) done _
          (List.mem_singleton_self _)
        · refine ⟨session, ran, ?_, ?_⟩
          · exact ((asked_iff "t1_by_day" ⟨"t1", ["day"]⟩).mpr
              ⟨_, List.mem_singleton_self _, by decide, rfl⟩).1
          · intro columns stands
            obtain ⟨asked, listed, named, -⟩ := (asked_iff "t1_by_shop" ⟨"t1", columns⟩).mp ⟨stands, rfl⟩
            rw [List.mem_singleton.mp listed] at named
            exact absurd named (by decide)
        · intro action member
          simp only [List.mem_cons, List.not_mem_nil, or_false] at member
          rcases member with rfl | rfl | rfl
          · exact program_spelled "shop" (.inl rfl)
          · exact program_spelled "shop" (.inl rfl)
          · exact program_spelled "day" (.inr rfl)

/-- An index that is no longer declared is still there. -/
theorem undeclared_index_stays :
    (statusOrders "id" [⟨"by_status", ["status"]⟩]).validate = .ok () ∧
      (statusOrders "id" []).validate = .ok () ∧
      (openModel [statusOrders "id" []]
        (reopened [[statusOrders "id" [⟨"by_status", ["status"]⟩]]] .blank)).1 = .ok () ∧
      (∀ other ∈ declared [statusOrders "id" []], other.1 ≠ "orders_by_status") ∧
      (openModel [statusOrders "id" []]
        (reopened [[statusOrders "id" [⟨"by_status", ["status"]⟩]]] .blank)).2.schema.indexes.get
          "orders_by_status" = some ⟨"orders", ["status", "id"]⟩ := by
  decide

end Hekla.Reads
