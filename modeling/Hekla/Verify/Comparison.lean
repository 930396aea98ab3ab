import Hekla.Host.Schema
import Hekla.Keys.Decryptor
import Hekla.Library.Join
import Hekla.Reads.ReadModel

/-!
# Comparing a rebuilt model with the live one

The rows of an entity are paired with the text of their keys and sorted by it,
on both sides.  What no longer decrypts is dropped, on both sides.  Then the two
are walked side by side, and every key they disagree about is reported.  The text
tells the rows of a read model apart, as their keys do.
-/

namespace Hekla.Verify

open Hekla.Library Hekla.Host Hekla.Keys

structure EntityDef where
  name : String
  key : String
  fields : List (String × FieldMeta)

/-- How a rebuilt row differs from the live one. -/
inductive Mismatch where
  | onlyLive (row : String)
  | onlyRebuilt (row : String)
  | differs (live rebuilt : String)
  deriving DecidableEq

/-- A rebuilt projector disagrees with the live model. -/
structure RebuildMismatch where
  projector : String
  entity : String
  key : String
  detail : Mismatch
  deriving DecidableEq

/-- How values are spelled, and what sealed text stands for. -/
structure Forms where
  spell : Json → String
  ciphertext : String → Ciphertext

/-- The keys there are to decrypt with. -/
structure KeyStore where
  masters : MasterKeys
  rows : KeyTable

/-! ## Keys of rows -/

def keyText (forms : Forms) (entity : EntityDef) (row : Json) : String :=
  match row.get entity.key with
  | some (.str text) => text
  | some other => forms.spell other
  | none => ""

/-- The rows of one model.  Its key column is a primary key, and is never null. -/
structure RowSet (forms : Forms) (entity : EntityDef) where
  rows : List Json
  distinct : (rows.map (keyText forms entity)).Nodup

/-! ## The rows of a read model -/

/-- A declared entity, as its rows are compared. -/
def compared (entity : Reads.EntityDef) : EntityDef where
  name := entity.name
  key := entity.key
  fields := entity.fields.map fun column => (column.1, { sealedUnder := column.2.sealedUnder })

section Served

variable {forms : Forms} {spelling : Reads.Spelling} {entity : Reads.Entity}

/-- Every number is spelled as its digits. -/
structure Forms.Numeral (forms : Forms) : Prop where
  int : ∀ number : Int, forms.spell (.int number) = toString number
  num : ∀ digits : String, forms.spell (.num digits) = digits

theorem keyText_of_scalar (numeral : forms.Numeral) {declared : EntityDef} {row value : Json}
    {text : String} (found : row.get declared.key = some value)
    (scalar : Reads.scalarString value = some text) : keyText forms declared row = text := by
  unfold keyText
  rw [found]
  cases value with
  | str _ =>
      cases scalar
      rfl
  | int number =>
      cases scalar
      exact numeral.int number
  | num _ =>
      cases scalar
      exact numeral.num _
  | _ => cases scalar

/-- The cell of a row's key is found again by the text of the key. -/
theorem cell_of_keyText (numeral : forms.Numeral) (lawful : spelling.Lawful) {row : Row}
    (stored : Reads.Stored spelling entity row) {field : Reads.FieldMeta}
    (named : entity.field entity.key = some field) :
    Reads.bindOrText spelling field.kind (keyText forms (compared entity.toEntityDef)
      (Reads.rowToJson spelling entity.toEntityDef row)) = row entity.key := by
  obtain ⟨declared, named', required, keyable, unsealed⟩ := entity.key_declared
  cases named.symm.trans named'
  have present := stored.present entity.key field named required
  obtain ⟨text, scalar, found⟩ :=
    (stored.spelled entity.key field named keyable unsealed present).served lawful keyable unsealed
  have shown : (Reads.rowToJson spelling entity.toEntityDef row).get entity.key =
      some (Reads.fromSql spelling field (row entity.key)) := by
    refine Reads.rowToJson_get named ?_
    cases empty : Reads.fromSql spelling field (row entity.key) with
    | null =>
        rw [empty] at scalar
        cases scalar
    | _ => rfl
  have same : keyText forms (compared entity.toEntityDef)
      (Reads.rowToJson spelling entity.toEntityDef row) = text := keyText_of_scalar numeral shown scalar
  rw [same, found]

/-- The rows of a read model, as they are compared. -/
def RowSet.ofModel (numeral : forms.Numeral) (lawful : spelling.Lawful)
    (model : Reads.ReadModel spelling entity) : RowSet forms (compared entity.toEntityDef) where
  rows := model.rows.map (Reads.rowToJson spelling entity.toEntityDef)
  distinct := by
    obtain ⟨field, named, -⟩ := entity.key_declared
    rw [List.map_map]
    refine List.Nodup.of_map (Reads.bindOrText spelling field.kind) ?_
    rw [List.map_map]
    refine (List.map_congr_left fun row member => ?_) ▸ model.distinct
    exact (cell_of_keyText numeral lawful (model.stored row member) named).symm

end Served

/-- Each row with the text of its key, in the order of that text. -/
def keyed (forms : Forms) (entity : EntityDef) (rows : List Json) : List (String × Json) :=
  (rows.map fun row => (keyText forms entity row, row)).insertionSort
    fun first second => first.1 ≤ second.1

/-! ## What no longer reads back -/

def removeMember (row : Json) (name : String) : Json :=
  match row with
  | .obj members => .obj (members.filter fun entry => entry.1 != name)
  | other => other

/-- Whether a sealed column of a row decrypts; `none` where there is nothing to decrypt. -/
def readable (forms : Forms) (keystore : KeyStore) (object : Json) (column : String × FieldMeta)
    (decryptor : RowDecryptor) : Option Bool × RowDecryptor :=
  match column.2.sealedUnder with
  | none => (none, decryptor)
  | some seal_ =>
      match (object.get seal_.idField).bind scalarToString with
      | none => (none, decryptor)
      | some id =>
          match (object.get column.1).bind Json.asStr with
          | none => (none, decryptor)
          | some text =>
              let (answer, decryptor) := RowDecryptor.decrypt keystore.masters keystore.rows
                decryptor ⟨(seal_.subject, id), column.1, forms.ciphertext text⟩
              match answer with
              | .ok (some _) => (some true, decryptor)
              | .ok none => (some false, decryptor)
              | .error _ => (some false, decryptor)

/-- Blank every sealed column that no longer reads back; ids and ciphertexts are
read from the row as it was. -/
def dropShredded (forms : Forms) (keystore : KeyStore) (object : Json) :
    List (String × FieldMeta) → Json → RowDecryptor → Json × RowDecryptor
  | [], row, decryptor => (row, decryptor)
  | column :: rest, row, decryptor =>
      let (answer, decryptor) := readable forms keystore object column decryptor
      let row := if answer = some false then removeMember row column.1 else row
      dropShredded forms keystore object rest row decryptor

/-- One side after the other through one decryptor; each row keeps the key it had. -/
def dropAll (forms : Forms) (keystore : KeyStore) (entity : EntityDef) :
    List (String × Json) → RowDecryptor → List (String × Json) × RowDecryptor
  | [], decryptor => ([], decryptor)
  | (key, row) :: rest, decryptor =>
      let (row, decryptor) := dropShredded forms keystore row entity.fields row decryptor
      let (rows, decryptor) := dropAll forms keystore entity rest decryptor
      ((key, row) :: rows, decryptor)

/-- Both sides, keyed, with what no longer reads back dropped. -/
def reconciled (forms : Forms) (keystore : Option KeyStore) (entity : EntityDef)
    (live rebuilt : List Json) : List (String × Json) × List (String × Json) :=
  match keystore with
  | none => (keyed forms entity live, keyed forms entity rebuilt)
  | some keystore =>
      let (liveRows, decryptor) := dropAll forms keystore entity (keyed forms entity live) {}
      let (rebuiltRows, _) := dropAll forms keystore entity (keyed forms entity rebuilt) decryptor
      (liveRows, rebuiltRows)

/-! ## The comparison -/

/-- Walk both sides, and report what they disagree about. -/
def mismatches (spell : Json → String) :
    List (String × Json) → List (String × Json) → List (String × Mismatch)
  | [], rebuilt => rebuilt.map fun entry => (entry.1, .onlyRebuilt (spell entry.2))
  | entry :: live, [] =>
      (entry :: live).map fun entry => (entry.1, .onlyLive (spell entry.2))
  | first :: live, second :: rebuilt =>
      match compare first.1 second.1 with
      | .eq =>
          if first.2 ≠ second.2 then
            (first.1, .differs (spell first.2) (spell second.2)) :: mismatches spell live rebuilt
          else mismatches spell live rebuilt
      | .lt => (first.1, .onlyLive (spell first.2)) :: mismatches spell live (second :: rebuilt)
      | .gt =>
          (second.1, .onlyRebuilt (spell second.2)) :: mismatches spell (first :: live) rebuilt
termination_by live rebuilt => live.length + rebuilt.length

def compareEntity (forms : Forms) (projector : String) (entity : EntityDef)
    (keystore : Option KeyStore) (live rebuilt : List Json) : List RebuildMismatch :=
  let (liveRows, rebuiltRows) := reconciled forms keystore entity live rebuilt
  (mismatches forms.spell liveRows rebuiltRows).map fun entry =>
    ⟨projector, entity.name, entry.1, entry.2⟩

/-! ## Keys stay in order -/

section Order

variable {forms : Forms} {entity : EntityDef}

theorem keyed_keys (forms : Forms) (entity : EntityDef) (rows : List Json) :
    ((keyed forms entity rows).map Prod.fst).Perm (rows.map (keyText forms entity)) := by
  have sorted := (List.perm_insertionSort (fun first second : String × Json => first.1 ≤ second.1)
    (rows.map fun row => (keyText forms entity row, row))).map Prod.fst
  rw [List.map_map] at sorted
  exact sorted

theorem keyed_ascending (set : RowSet forms entity) :
    Ascending (keyed forms entity set.rows) := by
  have sorted := List.pairwise_insertionSort
    (fun first second : String × Json => first.1 ≤ second.1)
    (set.rows.map fun row => (keyText forms entity row, row))
  have distinct : ((keyed forms entity set.rows).map Prod.fst).Nodup :=
    (keyed_keys forms entity set.rows).nodup_iff.mpr set.distinct
  exact (sorted.and (List.pairwise_map.mp distinct)).imp fun both => lt_of_le_of_ne both.1 both.2

theorem ascending_of_keys {one other : List (String × Json)}
    (same : other.map Prod.fst = one.map Prod.fst) (ascending : Ascending one) :
    Ascending other := by
  have keys : (one.map Prod.fst).Pairwise (· < ·) := List.pairwise_map.mpr ascending
  rw [← same] at keys
  exact List.pairwise_map.mp keys

theorem dropAll_keys (keystore : KeyStore) (rows : List (String × Json))
    (decryptor : RowDecryptor) :
    (dropAll forms keystore entity rows decryptor).1.map Prod.fst = rows.map Prod.fst := by
  induction rows generalizing decryptor with
  | nil => rfl
  | cons entry rest ih => exact congrArg (List.cons entry.1) (ih _)

theorem reconciled_ascending (keystore : Option KeyStore) (live rebuilt : RowSet forms entity) :
    Ascending (reconciled forms keystore entity live.rows rebuilt.rows).1 ∧
      Ascending (reconciled forms keystore entity live.rows rebuilt.rows).2 := by
  cases keystore with
  | none => exact ⟨keyed_ascending live, keyed_ascending rebuilt⟩
  | some keystore =>
      exact ⟨ascending_of_keys (dropAll_keys keystore _ _) (keyed_ascending live),
        ascending_of_keys (dropAll_keys keystore _ _) (keyed_ascending rebuilt)⟩

end Order

/-! ## What is reported -/

/-- What is wrong with what two models have under one key. -/
def disagreement (spell : Json → String) : Sides Json → Option Mismatch
  | .both live rebuilt => if live ≠ rebuilt then some (.differs (spell live) (spell rebuilt)) else none
  | .onlyLeft live => some (.onlyLive (spell live))
  | .onlyRight rebuilt => some (.onlyRebuilt (spell rebuilt))

/-- The walk reports what is wrong under each key of the two sides. -/
theorem mismatches_eq (spell : Json → String) (live rebuilt : List (String × Json)) :
    mismatches spell live rebuilt = (join live rebuilt).filterMap fun entry =>
      (disagreement spell entry.2).map fun detail => (entry.1, detail) := by
  induction live, rebuilt using mismatches.induct with
  | case1 rebuilt =>
      rw [mismatches, join, List.filterMap_map, ← List.filterMap_eq_map']
      rfl
  | case2 entry live =>
      rw [mismatches, join, List.filterMap_map, ← List.filterMap_eq_map']
      rfl
  | case3 first live second rebuilt order differs ih =>
      rw [mismatches, join, order]
      dsimp only
      rw [if_pos differs, List.filterMap_cons_some, ih]
      unfold disagreement
      dsimp only
      rw [if_pos differs]
      rfl
  | case4 first live second rebuilt order same ih =>
      rw [mismatches, join, order]
      dsimp only
      rw [if_neg same, List.filterMap_cons_none, ih]
      unfold disagreement
      dsimp only
      rw [if_neg same]
      rfl
  | case5 first live second rebuilt order ih =>
      rw [mismatches, join, order]
      dsimp only
      rw [List.filterMap_cons_some, ih]
      rfl
  | case6 first live second rebuilt order ih =>
      rw [mismatches, join, order]
      dsimp only
      rw [List.filterMap_cons_some, ih]
      rfl

/-- What two models have under a key, and how it is reported. -/
inductive Disagrees (spell : Json → String) : Option Json → Option Json → Mismatch → Prop where
  | onlyLive (live : Json) : Disagrees spell (some live) none (.onlyLive (spell live))
  | onlyRebuilt (rebuilt : Json) : Disagrees spell none (some rebuilt) (.onlyRebuilt (spell rebuilt))
  | differs {live rebuilt : Json} (apart : live ≠ rebuilt) :
      Disagrees spell (some live) (some rebuilt) (.differs (spell live) (spell rebuilt))

theorem disagrees_iff {spell : Json → String} {live rebuilt : Option Json} {detail : Mismatch} :
    Disagrees spell live rebuilt detail ↔
      (Sides.of live rebuilt).bind (disagreement spell) = some detail := by
  constructor
  · intro disagrees
    cases disagrees with
    | onlyLive => rfl
    | onlyRebuilt => rfl
    | differs apart => exact if_pos apart
  · intro reported
    cases live with
    | none =>
        cases rebuilt with
        | none => cases reported
        | some rebuilt =>
            cases reported
            exact .onlyRebuilt rebuilt
    | some live =>
        cases rebuilt with
        | none =>
            cases reported
            exact .onlyLive live
        | some rebuilt =>
            change (if live ≠ rebuilt then _ else _) = _ at reported
            split at reported
            · next apart =>
                cases reported
                exact .differs apart
            · cases reported

/-- Two models disagree about a key exactly when they do not have the same there. -/
theorem exists_disagrees {spell : Json → String} {live rebuilt : Option Json} :
    (∃ detail, Disagrees spell live rebuilt detail) ↔ live ≠ rebuilt := by
  constructor
  · rintro ⟨detail, disagrees⟩
    cases disagrees with
    | onlyLive => exact nofun
    | onlyRebuilt => exact nofun
    | differs apart => exact fun same => apart (Option.some.inj same)
  · intro apart
    cases live with
    | none =>
        cases rebuilt with
        | none => exact absurd rfl apart
        | some rebuilt => exact ⟨_, .onlyRebuilt rebuilt⟩
    | some live =>
        cases rebuilt with
        | none => exact ⟨_, .onlyLive live⟩
        | some rebuilt => exact ⟨_, .differs fun same => apart (congrArg some same)⟩

section Reports

variable {spell : Json → String} {live rebuilt : List (String × Json)}

theorem mem_mismatches (leftward : Ascending live) (rightward : Ascending rebuilt) (key : String)
    (detail : Mismatch) :
    (key, detail) ∈ mismatches spell live rebuilt ↔
      Disagrees spell (live.lookup key) (rebuilt.lookup key) detail := by
  rw [mismatches_eq, disagrees_iff, ← lookup_join leftward rightward, List.mem_filterMap]
  have listed := mem_iff_lookup (join_ascending leftward rightward)
  constructor
  · rintro ⟨⟨other, sides⟩, member, reported⟩
    obtain ⟨found, wrong, same⟩ := Option.map_eq_some_iff.mp reported
    cases same
    rw [(listed other sides).mp member]
    exact wrong
  · intro reported
    obtain ⟨sides, found, wrong⟩ := Option.bind_eq_some_iff.mp reported
    refine ⟨(key, sides), (listed key sides).mpr found, ?_⟩
    dsimp only
    rw [wrong]
    rfl

theorem mismatches_keys_nodup (leftward : Ascending live) (rightward : Ascending rebuilt) :
    ((mismatches spell live rebuilt).map Prod.fst).Nodup := by
  have ascending : Ascending (mismatches spell live rebuilt) := by
    rw [mismatches_eq]
    refine List.pairwise_filterMap.mpr ((join_ascending leftward rightward).imp ?_)
    intro first second lower entry here other there
    obtain ⟨_, -, rfl⟩ := Option.map_eq_some_iff.mp here
    obtain ⟨_, -, rfl⟩ := Option.map_eq_some_iff.mp there
    exact lower
  exact (List.pairwise_map.mpr ascending).imp fun lower => lower.ne

end Reports

/-- A number is spelled as its digits, and a note by its title. -/
def byTitle : Forms where
  spell
    | .int number => toString number
    | .num digits => digits
    | other => ((other.get "title").bind Json.asStr).getD ""
  ciphertext text := ⟨0, "text", text⟩

/-- A note is sealed under the customer. -/
def notes : EntityDef where
  name := "Note"
  key := "id"
  fields := [("id", {}), ("title", {}), ("customer", {}),
    ("text", { sealedUnder := some { subject := "Customer", idField := "customer" } })]

def note (id : Int) (title text : String) : Json :=
  .obj [("id", .int id), ("title", .str title), ("customer", .str "88"), ("text", .str text)]

def liveNotes : RowSet byTitle notes where
  rows := [note 1 "first" "sealed", note 2 "second" "sealed", note 10 "tenth" "sealed"]
  distinct := by decide

/-- What an erased customer's notes held is not written again. -/
def rebuiltNotes : RowSet byTitle notes where
  rows := [note 1 "first" "", note 2 "other" "", note 3 "third" ""]
  distinct := by decide

/-- The customer's key was the only one. -/
def noKeys : KeyStore := ⟨⟨"A", []⟩, ∅⟩

def reportedNotes : List RebuildMismatch :=
  compareEntity byTitle "Notes" notes (some noKeys) liveNotes.rows rebuiltNotes.rows

end Hekla.Verify
