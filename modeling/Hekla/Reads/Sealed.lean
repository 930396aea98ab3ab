import Hekla.Reads.Pagination

/-!
# Sealed values

A seal holds text, so a value is flattened when it is sealed and typed again by
its kind when it is opened.  A payload seals the form a value has on the wire, a
read model the form its column is served in; each has its own table back, and
both tables give what a field that is not sealed would have held.
-/

namespace Hekla.Reads

open Hekla.Library Hekla.Host
open Hekla.Derived (FieldKind)

/-- What a value of a kind is on the wire. -/
inductive Holds : FieldKind → Json → Prop where
  | text (most : Option Nat) (text : String) : Holds (.text most) (.str text)
  | i64 (value : Int64) : Holds .i64 (.int value.toInt)
  | bool (flag : Bool) : Holds .bool (.bool flag)
  | uuid (text : String) : Holds .uuid (.str text)
  | timestamp (micros : Int64) : Holds .timestamp (.int micros.toInt)
  | money (scale : Nat) (text : String) : Holds (.money scale) (.str text)
  | oneOf (values : List String) (variant : String) : Holds (.oneOf values) (.str variant)
  | json (document : Json) : Holds .json document

variable (spelling : Spelling)

/-- The text a seal holds, of a value in the form its store keeps. -/
def sealText (kind : FieldKind) (json : Json) : String :=
  match kind.base with
  | .json => spelling.jsonText json
  | _ => (scalarToString json).getD (spelling.jsonText json)

/-- An opened payload seal as its kind says. -/
def unsealedJson (kind : FieldKind) (text : String) : Json :=
  match kind.base with
  | .i64 | .timestamp => (parseI64 text).elim (.str text) fun number => .int number.toInt
  | .bool => if text = "true" then .bool true else if text = "false" then .bool false else .str text
  | .json => (spelling.jsonOf text).getD (.str text)
  | _ => .str text

/-- The text that an opened column is read from: an instant as the payload has it. -/
def sealedColumn (kind : FieldKind) (plaintext : String) : String :=
  match kind.base with
  | .timestamp =>
      (spelling.timestamp plaintext).elim plaintext fun micros => toString micros.toInt
  | _ => plaintext

/-- An instant that has a spelling. -/
def Renderable (kind : FieldKind) (json : Json) : Prop :=
  kind.base = .timestamp → (json.asI64.bind spelling.rfc3339).isSome = true

/-- A document reads back from its text. -/
def Documented (kind : FieldKind) (json : Json) : Prop :=
  kind.base = .json → spelling.jsonOf (spelling.jsonText json) = some json

variable {spelling} {kind : FieldKind} {json : Json}

/-- An opened payload seal is the value that was sealed. -/
theorem unsealedJson_sealText (held : Holds kind.base json)
    (documented : Documented spelling kind json) :
    unsealedJson spelling kind (sealText spelling kind json) = json := by
  unfold Documented at documented
  unfold unsealedJson sealText
  generalize kind.base = base at held documented
  cases held with
  | i64 value =>
      change (parseI64 (toString value.toInt)).elim _ _ = _
      rw [parseI64_toString, Option.elim_some]
  | timestamp micros =>
      change (parseI64 (toString micros.toInt)).elim _ _ = _
      rw [parseI64_toString, Option.elim_some]
  | bool flag => cases flag <;> rfl
  | json =>
      dsimp only
      rw [documented rfl, Option.getD_some]
  | _ => rfl

theorem columnForm_of_ne (other : kind.base ≠ .timestamp) :
    columnForm spelling kind json = json := by
  unfold columnForm
  split
  · next instant => exact absurd instant other
  · rfl

/-- An instant that has a spelling is served in it. -/
theorem columnForm_timestamp (instant : kind.base = .timestamp) {micros : Int64} {text : String}
    (spelt : spelling.rfc3339 micros = some text) :
    columnForm spelling kind (.int micros.toInt) = .str text := by
  unfold columnForm
  rw [instant]
  dsimp only
  rw [asI64_int, Option.bind_some, spelt, Option.elim_some]

theorem storedForm_of_ne (other : kind.base ≠ .timestamp) :
    storedForm spelling kind json = json := by
  unfold storedForm
  split
  · next instant => exact absurd instant other
  · next instant => exact absurd instant other
  · exact columnForm_of_ne other

theorem storedForm_timestamp (instant : kind.base = .timestamp) {micros : Int64} {text : String}
    (spelt : spelling.storedTimestamp micros = some text) :
    storedForm spelling kind (.int micros.toInt) = .str text := by
  unfold storedForm
  rw [instant]
  dsimp only
  rw [asI64_int, Option.bind_some, spelt, Option.elim_some]

/-- The spelling of an instant that has one. -/
theorem rfc3339_of_renderable (instant : kind.base = .timestamp) {micros : Int64}
    (renderable : Renderable spelling kind (.int micros.toInt)) :
    ∃ text, spelling.rfc3339 micros = some text := by
  have rendered := renderable instant
  rw [asI64_int, Option.bind_some] at rendered
  exact Option.isSome_iff_exists.mp rendered

/-- What a sealed column is typed as, of a form that is not an instant's. -/
theorem typedFromString_of_ne (held : Holds kind.base json) (other : kind.base ≠ .timestamp)
    (documented : Documented spelling kind json) :
    typedFromString spelling kind (sealText spelling kind json) = json := by
  unfold Documented at documented
  unfold typedFromString sealText
  generalize kind.base = base at held other documented
  cases held with
  | i64 value =>
      change (parseI64 (toString value.toInt)).elim _ _ = _
      rw [parseI64_toString, Option.elim_some]
  | timestamp => exact absurd rfl other
  | bool flag => cases flag <;> rfl
  | json =>
      dsimp only
      rw [documented rfl, Option.getD_some]
  | _ => rfl

/-- A sealed column is typed as the form it was sealed in. -/
theorem typedFromString_sealText (held : Holds kind.base json)
    (documented : Documented spelling kind json) (renderable : Renderable spelling kind json) :
    typedFromString spelling kind (sealText spelling kind (columnForm spelling kind json)) =
      columnForm spelling kind json := by
  by_cases instant : kind.base = .timestamp
  · rw [instant] at held
    cases held with
    | timestamp micros =>
        obtain ⟨text, spelt⟩ := rfc3339_of_renderable instant renderable
        rw [columnForm_timestamp instant spelt]
        unfold typedFromString sealText
        rw [instant]
        rfl
  · rw [columnForm_of_ne instant]
    exact typedFromString_of_ne held instant documented

/-- A cell that is not an instant's reads back as what was put in it. -/
theorem fromSql_toSql (held : Holds kind.base json) (other : kind.base ≠ .timestamp)
    (documented : Documented spelling kind json) :
    ∃ cell, toSql spelling { kind } json = .ok cell ∧ fromSql spelling { kind } cell = json := by
  unfold Documented at documented
  unfold toSql fromSql
  dsimp only
  generalize kind.base = base at held other documented
  cases held with
  | i64 value =>
      refine ⟨.integer value, ?_, rfl⟩
      change (Json.int value.toInt).asI64.elim _ _ = _
      rw [asI64_int, Option.elim_some]
  | timestamp => exact absurd rfl other
  | bool flag => cases flag <;> exact ⟨_, rfl, rfl⟩
  | json =>
      cases json with
      | null => exact ⟨.null, rfl, rfl⟩
      | _ =>
          refine ⟨_, rfl, ?_⟩
          dsimp only
          rw [documented rfl, Option.getD_some]
          rfl
  | _ => exact ⟨_, rfl, rfl⟩

/-- A column that is not sealed is served in the form that a sealed one is typed as. -/
theorem plain_served (lawful : spelling.Lawful) (held : Holds kind.base json)
    (documented : Documented spelling kind json) (renderable : Renderable spelling kind json) :
    ∃ cell, toSql spelling { kind } (storedForm spelling kind json) = .ok cell ∧
      fromSql spelling { kind } cell = columnForm spelling kind json := by
  by_cases instant : kind.base = .timestamp
  · rw [instant] at held
    cases held with
    | timestamp micros =>
        obtain ⟨text, spelt⟩ := rfc3339_of_renderable instant renderable
        have ranged := lawful.same_range micros
        rw [spelt] at ranged
        obtain ⟨stored, written⟩ := Option.isSome_iff_exists.mp ranged.symm
        rw [columnForm_timestamp instant spelt, storedForm_timestamp instant written]
        refine ⟨.text stored, ?_, ?_⟩
        · unfold toSql
          dsimp only
          rw [instant]
          rfl
        · unfold fromSql servedTimestamp
          dsimp only
          rw [instant]
          dsimp only
          rw [lawful.stored_reads written, Option.bind_some, spelt, Option.getD_some]
          rfl
  · rw [columnForm_of_ne instant, storedForm_of_ne instant]
    exact fromSql_toSql held instant documented

/-- A column is read by the interpreter from the text its payload would hold. -/
theorem sealedColumn_sealText (lawful : spelling.Lawful) (held : Holds kind.base json)
    (renderable : Renderable spelling kind json) :
    sealedColumn spelling kind (sealText spelling kind (columnForm spelling kind json)) =
      sealText spelling kind json := by
  by_cases instant : kind.base = .timestamp
  · rw [instant] at held
    cases held with
    | timestamp micros =>
        obtain ⟨text, spelt⟩ := rfc3339_of_renderable instant renderable
        rw [columnForm_timestamp instant spelt]
        unfold sealedColumn sealText
        rw [instant]
        change (spelling.timestamp text).elim text (fun micros => toString micros.toInt) =
          toString micros.toInt
        rw [lawful.served_reads spelt, Option.elim_some]
  · rw [columnForm_of_ne instant]
    unfold sealedColumn
    split
    · next same => exact absurd same instant
    · rfl

/-- A sealed value reads like a plain one: its payload seal opens to the value,
and its column is served, and read back, as the plain column would be. -/
theorem sealed_reads_like_plain (spelling : Spelling) (lawful : spelling.Lawful) (kind : FieldKind)
    (json : Json) (held : Holds kind.base json) (documented : Documented spelling kind json) :
    unsealedJson spelling kind (sealText spelling kind json) = json ∧
    (Renderable spelling kind json → ∃ cell,
      toSql spelling { kind } (storedForm spelling kind json) = .ok cell ∧
      (∀ (keystore : KeyStore) (row : Json) (column : String) (filed : Seal) (id ciphertext : String),
        (row.get column).bind Json.asStr = some ciphertext →
        (row.get filed.idField).bind scalarToString = some id →
        keystore.decrypt filed.subject id column ciphertext =
          .ok (some (sealText spelling kind (columnForm spelling kind json))) →
        decryptColumn spelling keystore row (column, { kind, sealedUnder := some filed }) =
          .ok (insertMember column (fromSql spelling { kind } cell) row)) ∧
      sealedColumn spelling kind (sealText spelling kind (columnForm spelling kind json)) =
        sealText spelling kind json) := by
  refine ⟨unsealedJson_sealText held documented, ?_⟩
  intro renderable
  obtain ⟨cell, stored, served⟩ := plain_served lawful held documented renderable
  refine ⟨cell, stored, ?_, sealedColumn_sealText lawful held renderable⟩
  intro keystore row column filed id ciphertext present named opened
  unfold decryptColumn
  dsimp only
  rw [present]
  dsimp only
  rw [named]
  dsimp only
  rw [opened]
  dsimp only
  rw [served, typedFromString_sealText held documented renderable]

/-- The instant half a second past the new year, sealed and plain. -/
theorem newYear_reads_like_plain :
    unsealedJson newYear .timestamp (sealText newYear .timestamp (.int 1704067200500000)) =
      .int 1704067200500000 ∧
    ∃ cell, toSql newYear { kind := .timestamp } (storedForm newYear .timestamp
        (.int 1704067200500000)) = .ok cell ∧
      sealedColumn newYear .timestamp (sealText newYear .timestamp
        (columnForm newYear .timestamp (.int 1704067200500000))) = "1704067200500000" := by
  obtain ⟨payload, column⟩ := sealed_reads_like_plain newYear newYear_lawful .timestamp
    (.int (1704067200500000 : Int64).toInt) (.timestamp 1704067200500000) nofun
  obtain ⟨cell, stored, -, read⟩ := column fun _ => by decide
  exact ⟨payload, cell, stored, read⟩

end Hekla.Reads
