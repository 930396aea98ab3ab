import Hekla.Derived.Reconciliation

/-!
# The names of derived indexes

The name of an index spells its columns, so an apply leaves one alone that stands under a
wanted name, drops the store's own that are not wanted, and makes the others.  That is what
each definition asks for as long as no two of them, of one program or of several one after
the other, spell different indexes alike.
-/

namespace Hekla.Derived

open Library

/-- What each name stands for, without regard to case: how it is spelled, and an index. -/
abbrev Spelling := String → String × IndexShape

/-- The indexes of a program are what their names stand for. -/
def Deployable.Spelled {naming : Naming} (program : Deployable naming) (spelling : Spelling) : Prop :=
  ∀ table ∈ program.tables, ∀ asked ∈ table.indexes,
    spelling (folded (table.indexName asked)) =
      (table.indexName asked, ⟨table.name, asked.columns⟩)

def Action.Spelled {naming : Naming} (spelling : Spelling) : Action naming → Prop
  | .open program _ => program.Spelled spelling
  | .apply program _ => program.Spelled spelling
  | _ => True

/-- Every index that stands is what its name stands for, on the table it is filed under. -/
structure Indexed (naming : Naming) (spelling : Spelling) (schema : Schema) : Prop where
  placed : Placed naming schema
  spelled : ∀ name index, schema.indexes.get name = some index →
    spelling (folded name) = (name, index)

/-- What is true of the indexes in every state of a run. -/
structure Session.Indexed (naming : Naming) (spelling : Spelling) (session : Session) : Prop where
  disk : session.disk.format = formatVersion → Derived.Indexed naming spelling session.disk.schema
  format : session.opened = true → session.disk.format = formatVersion

section Spelled

variable {naming : Naming} {spelling : Spelling} {program : Deployable naming}

theorem Indexed.of_indexes {schema next : Schema} (indexed : Indexed naming spelling schema)
    (same : next.indexes = schema.indexes) : Indexed naming spelling next := by
  refine ⟨?_, ?_⟩
  · intro name index held
    exact indexed.placed name index (same ▸ held)
  · intro name index held
    exact indexed.spelled name index (same ▸ held)

/-- A file of another format comes out without indexes. -/
theorem reformat_indexed {disk next : Disk}
    (current : disk.format = formatVersion → Indexed naming spelling disk.schema)
    (done : reformat disk = .ok next) : Indexed naming spelling next.schema := by
  unfold reformat at done
  split at done
  · next same =>
      cases done
      exact current same
  · obtain ⟨schema, dropped, done⟩ := bind_ok.mp done
    cases done
    have gone := Schema.dropTables_all (mapError_ok.mp dropped)
    have none_ (name : String) (index : IndexShape) : schema.indexes.get name ≠ some index := by
      intro held
      obtain ⟨shape, placed⟩ := schema.placed name index held
      cases (gone _).symm.trans placed
    exact ⟨fun name index held => absurd held (none_ name index),
      fun name index held => absurd held (none_ name index)⟩

theorem createTables_indexes {tables : List TableDef} {disk next : Disk}
    (created : createTables tables disk = .ok next) :
    next.format = disk.format ∧ next.schema.indexes = disk.schema.indexes := by
  unfold createTables at created
  obtain ⟨schema, passed, created⟩ := bind_ok.mp created
  cases created
  refine ⟨rfl, ?_⟩
  refine pass_keeps (fun _ => True) (fun held : Schema => held.indexes = disk.schema.indexes) ?_
    (fun _ _ => trivial) rfl (mapError_ok.mp passed)
  intro held after table _ same made
  rcases Schema.createTable_ok made with ⟨rfl, -⟩ | ⟨-, -, rfl⟩
  · exact same
  · exact same

theorem openStore_indexed {tables : List TableDef} (interrupted : Option Nat) {disk : Disk}
    (indexed : disk.format = formatVersion → Indexed naming spelling disk.schema) :
    (openStore tables interrupted disk).2.format = formatVersion →
      Indexed naming spelling (openStore tables interrupted disk).2.schema := by
  have stages (stage : Disk → Except ApplyError Disk) (member : stage ∈ openStages tables)
      {disk next : Disk} (indexed : disk.format = formatVersion → Indexed naming spelling disk.schema)
      (done : stage disk = .ok next) :
      next.format = formatVersion → Indexed naming spelling next.schema := by
    unfold openStages at member
    simp only [List.mem_cons, List.not_mem_nil, or_false] at member
    rcases member with rfl | rfl | rfl | rfl
    · exact fun _ => reformat_indexed indexed done
    · cases done
      exact indexed
    · cases done
      exact indexed
    · intro current
      obtain ⟨same, indexes⟩ := createTables_indexes done
      exact (indexed (same ▸ current)).of_indexes indexes
  unfold openStore
  split
  · exact advance_keeps
      (fun disk : Disk => disk.format = formatVersion → Indexed naming spelling disk.schema)
      (fun stage member _ _ => stages stage member) indexed
  · exact advance_keeps
      (fun disk : Disk => disk.format = formatVersion → Indexed naming spelling disk.schema)
      (fun stage member _ _ => stages stage (List.mem_of_mem_take member)) indexed

/-- An apply that commits leaves indexes that are what their names stand for. -/
theorem applied_indexed {tx next : Tx} {changes : List Change}
    (indexed : Indexed naming spelling tx.schema) (spells : program.Spelled spelling)
    (done : applied program.digest program.tables tx = .ok (changes, next)) :
    Indexed naming spelling next.schema := by
  obtain ⟨current, implied, -⟩ := bind_ok.mp done
  refine ⟨(applied_spec indexed.placed implied done).placed, ?_⟩
  obtain ⟨changed, passed, synced, -⟩ := applied_ok implied done
  have untouched := (changes_frame passed).2
  refine pass_keeps (fun table => table ∈ program.tables)
    (fun schema : Schema => ∀ name index, schema.indexes.get name = some index →
      spelling (folded name) = (name, index)) ?_ (fun _ member => member) ?_ (mapError_ok.mp synced)
  · intro schema after table member kept done name index held
    rw [(syncTable_ok done).2] at held
    rcases of_synced_eq_some held with before | ⟨asked, memberAsked, rfl, rfl⟩
    · exact kept name index before
    · exact spells table member asked memberAsked
  · intro name index held
    rw [untouched, get_dropIndexes, Option.filter_eq_some_iff] at held
    exact indexed.spelled name index held.1

theorem step_indexed {session next : Session} {action : Action naming}
    (indexed : session.Indexed naming spelling) (spells : action.Spelled spelling)
    (stepped : step session action = some next) : next.Indexed naming spelling := by
  cases action with
  | «open» program interrupted =>
      cases stepped
      refine ⟨openStore_indexed interrupted indexed.disk, ?_⟩
      intro opened
      apply openStore_format
      dsimp only at opened
      split at opened
      · next done => exact done
      · cases opened
  | apply program interrupted =>
      simp only [step] at stepped
      split at stepped
      · next opened =>
          cases stepped
          have held := indexed.disk (indexed.format opened)
          unfold apply
          cases catalog : session.disk.catalog with
          | none => exact indexed
          | some recorded =>
              dsimp only
              cases ended : applied program.digest program.tables ⟨session.disk.schema, recorded⟩ with
              | error error => exact indexed
              | ok result =>
                  cases interrupted with
                  | true => exact indexed
                  | false => exact ⟨fun _ => applied_indexed held spells ended, indexed.format⟩
      · cases stepped
  | markBuilt table column head =>
      simp only [step] at stepped
      split at stepped
      · next opened =>
          cases stepped
          exact ⟨indexed.disk, indexed.format⟩
      · cases stepped
  | crash =>
      cases stepped
      exact ⟨indexed.disk, by rintro ⟨⟩⟩

/-- Over any deploys whose declarations spell no two indexes alike, an apply that commits
leaves on each table of its program exactly the indexes its definition asks for. -/
theorem applied_indexes {first session : Session} {actions : List (Action naming)}
    (foreign : first.disk.format ≠ formatVersion) (closed : first.opened = false)
    (spelled : ∀ action ∈ actions, action.Spelled spelling)
    (ran : run step first actions = some session) (opened : session.opened = true)
    (spells : program.Spelled spelling) {changes : List Change}
    (done : (apply program false session.disk).1 = .ok changes) :
    ∀ table ∈ program.tables, ∀ name index,
      ((apply program false session.disk).2.schema.indexes.get name = some index ∧
          index.table = table.name) ↔
        ∃ asked ∈ table.indexes, name = table.indexName asked ∧
          index = ⟨table.name, asked.columns⟩ := by
  have indexed : session.Indexed naming spelling := by
    refine run_invariant_of_guarded (Session.Indexed naming spelling)
      (fun _ _ _ indexed spells stepped => step_indexed indexed spells stepped)
      ⟨fun current => absurd current foreign, fun opened => by simp [closed] at opened⟩
      (Guarded.of_forall fun action member _ => spelled action member) ran
  have held := indexed.disk (indexed.format opened)
  obtain ⟨-, format, current, -, applied⟩ := apply_ok held.placed done
  have stepped : step session (.apply program false) =
      some { session with disk := (apply program false session.disk).2 } := if_pos opened
  have after := (@step_indexed naming spelling session _ (.apply program false) indexed spells
    stepped).disk (format.trans (indexed.format opened))
  intro table member name index
  constructor
  · rintro ⟨stands, on⟩
    obtain ⟨asked, memberAsked, rfl⟩ := asked_of_index held.placed applied member stands on
    have same := (after.spelled _ index stands).symm.trans (spells table member asked memberAsked)
    exact ⟨asked, memberAsked, rfl, (Prod.mk.inj same).2⟩
  · rintro ⟨asked, memberAsked, rfl, rfl⟩
    obtain ⟨other, _, _, stands⟩ := index_of_asked applied member memberAsked
    have same := (after.spelled _ _ stands).symm.trans (spells table member asked memberAsked)
    rw [(Prod.mk.inj same).2] at stands
    exact ⟨stands, rfl⟩

end Spelled

/-! ## Visits to a shop on a day -/

namespace Visits

def key : List (String × FieldMeta) := [("shop", { kind := .i64 }), ("day", { kind := .i64 })]

def naming : Naming where
  key := fun _ => key
  type := fun _ => ("INTEGER", false)
  owner := fun _ => "t1"

/-- The program whose ranged arms pin one part of the key. -/
def program (pinned : String) : Deployable naming where
  digest := Table.ofList [("Visits", { hash := "h", signatureHash := some "Int" })]
  tables := [{
    name := "t1"
    key
    columns := [{ name := "visits", fold := "Visits", default := some "0", field := { kind := .i64 } }]
    indexes := [rangedIndex [pinned]]
    distinct := List.nodup_singleton _
    derived := fun index asked => .inl ⟨[pinned], List.mem_singleton.mp asked⟩ }]
  distinct := List.nodup_singleton _
  keyed := by
    intro table member
    rw [List.mem_singleton.mp member]
    rfl
  placed := by
    intro table member index asked
    rw [List.mem_singleton.mp member]
    rfl
  typed := by
    intro held member entry _
    rw [columnsOf, List.flatMap_singleton] at member
    rw [List.mem_singleton.mp member]
    rfl

/-- What the two names stand for. -/
def spelling (name : String) : String × IndexShape :=
  if name = "t1_by_shop" then ("t1_by_shop", ⟨"t1", ["shop"]⟩) else ("t1_by_day", ⟨"t1", ["day"]⟩)

theorem program_spelled (pinned : String) (one : pinned = "shop" ∨ pinned = "day") :
    (program pinned).Spelled spelling := by
  intro table member asked listed
  obtain rfl := List.mem_singleton.mp member
  obtain rfl := List.mem_singleton.mp listed
  rcases one with rfl | rfl <;> decide

end Visits

end Hekla.Derived
