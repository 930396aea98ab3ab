import Hekla.Language.Cells
import Hekla.Language.RowWriter

/-!
# Rows as a map

To its handlers a projector's table is a map: what was put under a key last, and
nothing after a delete.  A sealed column holds what was put while the subject
has the secret it was sealed with, and nothing afterwards.
-/

namespace Hekla.Language

open Hekla.Library Hekla.Host Hekla.Reads
open Hekla.Derived (FieldKind)
open Hekla.Keys (Identity Secret Ciphertext encryptWith plaintextUnder)

/-! ## The map -/

/-- The values of a row, by column. -/
abbrev Columns (language : Heklang) := String → Value language.Plain

section Map

attribute [local instance] identity_lawful

variable {spelling : Spelling} {language : Heklang} (armor : Armor) {text : language.Plain → String}
  (entity : Declared language)

/-- Whether a subject has a secret. -/
def Vault.keeps (vault : Vault) (subject : String) (id : Option String) : Bool :=
  id.any fun id => (vault.secret (subject, id)).isSome

/-- A moved seal as what it holds. -/
def revealed (vault : Vault) (content : language.Ty) :
    Value language.Plain → Value language.Plain
  | .some (.sealed field subject id ciphertext) =>
      match vault.decryptSubject armor subject id field ciphertext with
      | none => .none
      | some plaintext => (language.fromSealed plaintext content).toOption.elim .none .some
  | value => value

def Declared.sealedUnder (name : String) : Option Seal :=
  (entity.toEntity.field name).bind FieldMeta.sealedUnder

/-- What a row that is put says, where it says anything that can be kept. -/
def columnsOf (vault : Vault) (row : HeklangRow language) : Columns language := fun name =>
  match row name, entity.sealedUnder name with
  | none, _ => .none
  | some value, none => value
  | some value, some filed =>
      if vault.keeps filed.subject ((row filed.idField).bind (plaintextScalar language)) then
        revealed armor vault (entity.content name) value
      else .none

/-- A row without what was sealed for subjects that are gone. -/
def blanked (gone : List Identity) (columns : Columns language) : Columns language := fun name =>
  match entity.sealedUnder name with
  | none => columns name
  | some filed =>
      if (plaintextScalar language (columns filed.idField)).any fun id =>
        (filed.subject, id) ∈ gone then .none
      else columns name

/-- A row as a handler reads it: the declared columns in order. -/
def served (columns : Columns language) : List (String × Value language.Plain) :=
  entity.fields.map fun column => (column.1, columns column.1)

/-- The rows under their keys: those committed, and those of the transaction. -/
structure RowMap (spelling : Spelling) (text : language.Plain → String) (entity : Declared language) where
  vault : Vault := {}
  committed : Key spelling text entity → Option (Columns language) := fun _ => none
  rows : Key spelling text entity → Option (Columns language) := fun _ => none

variable {armor entity}

open Classical in
/-- What a step does to the map. -/
noncomputable def RowMap.step (map : RowMap spelling text entity) :
    RowAct armor text spelling entity → RowMap spelling text entity
  | .put key row =>
      { map with rows := Function.update map.rows key (some (columnsOf armor entity map.vault row.row)) }
  | .delete key => { map with rows := Function.update map.rows key none }
  | .commit => { map with committed := map.rows }
  | .rollback => { map with rows := map.committed }
  | .erase gone =>
      { vault := map.vault.erase gone
        committed := fun key => (map.committed key).map (blanked entity gone)
        rows := fun key => (map.rows key).map (blanked entity gone) }
  | .mint owner => { map with vault := map.vault.mint owner }

/-- What is put under a key is found there. -/
theorem RowMap.step_put (map : RowMap spelling text entity) (key : Key spelling text entity)
    (row : TypedRow spelling armor text entity key) :
    (map.step (.put key row)).rows key = some (columnsOf armor entity map.vault row.row) := by
  classical
  unfold RowMap.step
  exact Function.update_self key _ map.rows

end Map

/-! ## Secrets -/

section Secrets

variable {vault : Vault} {armor : Armor} {subject id field plaintext : String} {secret : Secret}

theorem decrypt_encrypted : vault.decryptSubject armor subject id field
    (armor.text (encryptWith secret field plaintext)) =
      if vault.secret (subject, id) = some secret then some plaintext else none := by
  unfold Vault.decryptSubject
  cases held : vault.secret (subject, id) with
  | none => rfl
  | some other =>
      rw [Option.bind_some, armor.reads, Option.bind_some]
      by_cases same : other = secret
      · subst same
        rw [if_pos rfl]
        exact Box.openWith_self _
      · rw [if_neg fun equal => same (Option.some.inj equal)]
        exact if_neg fun opens => same opens.1.symm

theorem keeps_some (id : String) :
    vault.keeps subject (some id) = (vault.secret (subject, id)).isSome := rfl

theorem erase_secret_of_mem {gone : List Identity} {identity : Identity} (member : identity ∈ gone) :
    (vault.erase gone).secret identity = none := if_pos member

theorem erase_secret_of_notMem {gone : List Identity} {identity : Identity}
    (spared : identity ∉ gone) : (vault.erase gone).secret identity = vault.secret identity :=
  if_neg spared

/-- A minted secret is one there was already, or a new one. -/
theorem mint_secret (owner identity : Identity) :
    (vault.mint owner).secret identity = vault.secret identity ∨
      vault.secret identity = none ∧ (vault.mint owner).secret identity = some vault.entropy := by
  unfold Vault.mint
  dsimp only
  by_cases same : identity = owner
  · subst same
    rw [if_pos rfl]
    cases held : vault.secret identity with
    | none => exact .inr ⟨rfl, rfl⟩
    | some secret => exact .inl rfl
  · rw [if_neg same]
    exact .inl rfl

end Secrets

/-! ## Keys -/

section Keys

variable {spelling : Spelling} {language : Heklang} {text : language.Plain → String}
  {entity : Declared language}

/-- The cell that a text of a key is looked up as. -/
def keyCell (key : Key spelling text entity) : Cell :=
  bindOrText spelling entity.keyField.kind (text key.held)

theorem key_facts (entity : Declared language) : entity.keyField.isNullable = false ∧
    entity.keyField.kind.isKeyable = true ∧ entity.keyField.sealedUnder = none := by
  obtain ⟨field, named, facts⟩ := entity.toEntity.key_declared
  obtain rfl : field = entity.keyField := Option.some.inj (named.symm.trans entity.keyed)
  exact facts

/-- A scalar that is no instant is stored as the cell its text is looked up as. -/
theorem bindOrText_stored {kind : FieldKind} {json : Json} {raw : String}
    (keyable : kind.isKeyable = true) (other : kind.base ≠ .timestamp) (holds : Holds kind.base json)
    (spelled : scalarToString json = some raw) :
    toSql spelling { kind } (storedForm spelling kind json) = .ok (bindOrText spelling kind raw) := by
  rw [storedForm_of_ne other]
  rw [base_of_keyable keyable] at holds other
  cases holds with
  | i64 value =>
      obtain rfl : toString value.toInt = raw := Option.some.inj spelled
      unfold bindOrText coerceValue
      dsimp only [FieldKind.base]
      rw [parseI64_toString]
      change (Json.int value.toInt).asI64.elim _ _ = _
      rw [asI64_int]
      rfl
  | timestamp => exact absurd rfl other
  | bool | money | json => cases keyable
  | _ =>
      cases spelled
      rfl

/-- A key that is no instant is stored as the cell its text is looked up as. -/
theorem key_stored (other : entity.keyField.kind.base ≠ .timestamp) (key : Key spelling text entity) :
    toSql spelling { kind := entity.keyField.kind }
      (storedForm spelling entity.keyField.kind (language.written (.plain key.held))) =
        .ok (keyCell key) :=
  bindOrText_stored (key_facts entity).2.1 other key.kinded.holds key.spelled

/-- Keys that are no instants have cells of their own. -/
theorem keyCell_injective (other : entity.keyField.kind.base ≠ .timestamp) :
    Function.Injective (keyCell : Key spelling text entity → Cell) := by
  intro one two same
  have read (key : Key spelling text entity) :
      fromSql spelling { kind := entity.keyField.kind } (keyCell key) =
        language.written (.plain key.held) := by
    obtain ⟨cell, stored, back⟩ := fromSql_toSql key.kinded.holds other key.kinded.documented
    have cells := key_stored other key
    rw [storedForm_of_ne other, stored] at cells
    rw [← Except.ok.inj cells, back]
  have written := (read one).symm.trans ((congrArg _ same).trans (read two))
  have values := one.reads
  rw [written, two.reads] at values
  have held : two.held = one.held := Value.plain.inj (Except.ok.inj values)
  cases one
  cases two
  cases held
  rfl

end Keys

/-! ## What a stored row holds -/

section Represents

variable {spelling : Spelling} {language : Heklang} (armor : Armor) (entity : Declared language)
  (vault : Vault)

/-- The id that a column is sealed for is no instant. -/
def TimelessId (filed : Seal) : Prop :=
  ∀ idField, entity.toEntity.field filed.idField = some idField → idField.kind.base ≠ .timestamp

/-- What the cell of a sealed column holds, of a value sealed for an id. -/
inductive SealedHolds (spelling : Spelling) (filed : Seal) (name : String) (kind : FieldKind)
    (content : language.Ty) (id : Option String) : Cell → Value language.Plain → Prop where
  | empty : SealedHolds spelling filed name kind content id .null .none
  | readable (owner : String) (secret : Secret) (held : language.Plain) (owned : id = some owner)
      (timeless : TimelessId entity filed) (has : vault.secret (filed.subject, owner) = some secret)
      (kinded : OfKind spelling language kind held)
      (reads : language.fromSealed (sealText spelling kind (language.written (.plain held))) content =
        .ok (.plain held)) :
      SealedHolds spelling filed name kind content id
        (.text (armor.text (encryptWith secret name
          (sealText spelling kind (columnForm spelling kind (language.written (.plain held)))))))
        (.some (.plain held))
  | lost (owner : String) (secret : Secret) (plaintext : String) (owned : id = some owner)
      (timeless : TimelessId entity filed) (old : secret < vault.entropy) (gone : vault.secret (filed.subject, owner) ≠ some secret) :
      SealedHolds spelling filed name kind content id
        (.text (armor.text (encryptWith secret name plaintext))) .none

/-- A stored row holds the values of a row of the map. -/
structure Represents (spelling : Spelling) (columns : Columns language) (row : Row) : Prop where
  plain : ∀ column field, entity.toEntity.field column = some field → field.sealedUnder = none →
    language.fromJson (toHeklangJson (wireForm spelling field.kind (fromSql spelling field (row column))))
      (entity.ty column) = .ok (columns column)
  ids : ∀ column field, entity.toEntity.field column = some field → field.sealedUnder = none →
    field.kind.base ≠ .timestamp →
    scalarToString (fromSql spelling field (row column)) = plaintextScalar language (columns column)
  filed : ∀ column field seal_, entity.toEntity.field column = some field →
    field.sealedUnder = some seal_ →
    SealedHolds armor entity vault spelling seal_ column field.kind (entity.content column)
      (plaintextScalar language (columns seal_.idField)) (row column) (columns column)

variable {armor entity vault}

/-- The id of a sealed column is a column of the row, and is not sealed itself. -/
theorem id_declared {column : String} {field : Reads.FieldMeta} {filed : Seal}
    (named : entity.toEntity.field column = some field) (personal : field.sealedUnder = some filed) :
    ∃ idField, entity.toEntity.field filed.idField = some idField ∧ idField.sealedUnder = none := by
  have clean := entity.toEntity.no_problems
  simp only [EntityDef.problems, List.append_eq_nil_iff, List.flatMap_eq_nil_iff] at clean
  have held := clean.1.1.2 _ (mem_fields named)
  dsimp only at held
  rw [personal] at held
  dsimp only at held
  rw [ite_eq_left_iff] at held
  have some_ : (entity.fields.any fun other => other.2.identifies == some filed.subject) = true := by
    by_contra none_
    cases held none_
  obtain ⟨other, found⟩ := Option.isSome_iff_exists.mp (List.find?_isSome.mpr (List.any_eq_true.mp some_))
  have member := List.mem_of_find?_eq_some found
  have identifies := List.find?_some found
  have place : filed.idField = other.1 := by
    rw [entity.filedBy column field filed named personal]
    unfold idColumn
    rw [found]
    rfl
  refine ⟨other.2, by rw [place]; exact field_of_mem member, entity.plainIds other member ?_⟩
  rw [beq_iff_eq.mp identifies]
  exact Option.some_ne_none _

/-- A column is read from the text its payload would hold, also where an instant
has no spelling and is sealed as its number. -/
theorem sealedColumn_reads (lawful : spelling.Lawful) (numerals : Numerals spelling)
    {kind : FieldKind} {json : Json} (held : Holds kind.base json) :
    sealedColumn spelling kind (sealText spelling kind (columnForm spelling kind json)) =
      sealText spelling kind json := by
  by_cases renderable : Renderable spelling kind json
  · exact sealedColumn_sealText lawful held renderable
  · by_cases instant : kind.base = .timestamp
    · rw [instant] at held
      cases held with
      | timestamp micros =>
          have unspelt : (Json.int micros.toInt).asI64.bind spelling.rfc3339 = none :=
            Option.not_isSome_iff_eq_none.mp fun spelt => renderable fun _ => spelt
          have form : columnForm spelling kind (.int micros.toInt) = .int micros.toInt := by
            unfold columnForm
            rw [instant]
            dsimp only
            rw [unspelt, Option.elim_none]
          rw [form]
          unfold sealedColumn sealText
          rw [instant]
          change (spelling.timestamp (toString micros.toInt)).elim _ _ = _
          rw [numerals.instant, Option.elim_none]
    · exact absurd (fun same => absurd same instant) renderable

/-- What a row shows in a column, where an empty one is not mentioned. -/
theorem shown_scalar {column : String} {field : Reads.FieldMeta} {row : Row}
    (named : entity.toEntity.field column = some field) :
    ((rowToJson spelling entity.toEntityDef row).get column).bind scalarToString =
      scalarToString (fromSql spelling field (row column)) := by
  cases empty : (fromSql spelling field (row column)).isNull with
  | false => rw [rowToJson_get named empty, Option.bind_some]
  | true =>
      rw [rowToJson_get_none named empty, Option.bind_none]
      cases shown : fromSql spelling field (row column) <;> rw [shown] at empty <;>
        first | rfl | cases empty

theorem fromSql_sealed {field : Reads.FieldMeta} (personal : field.sealedUnder ≠ none)
    (ciphertext : String) : fromSql spelling field (.text ciphertext) = .str ciphertext := by
  unfold fromSql
  rw [if_pos (Option.isSome_iff_ne_none.mpr personal)]

/-- A column of a row that holds nothing is read as an absent value. -/
theorem readColumn_empty {column : String} {field : Reads.FieldMeta} {row : Row}
    (named : entity.toEntity.field column = some field)
    (empty : (fromSql spelling field (row column)).isNull = true) :
    readColumn spelling armor entity vault (rowToJson spelling entity.toEntityDef row) column field =
      language.fromJson .null (entity.ty column) := by
  unfold readColumn
  rw [rowToJson_get_none named empty]
  cases field.sealedUnder <;> rfl

/-- A handler reads a column as the value that it holds. -/
theorem readColumn_represents (lawful : spelling.Lawful) (numerals : Numerals spelling)
    {columns : Columns language} {row : Row}
    (represents : Represents armor entity vault spelling columns row) {column : String}
    {field : Reads.FieldMeta} (named : entity.toEntity.field column = some field) :
    readColumn spelling armor entity vault (rowToJson spelling entity.toEntityDef row) column field =
      .ok (columns column) := by
  cases personal : field.sealedUnder with
  | none =>
      have read := represents.plain column field named personal
      cases empty : (fromSql spelling field (row column)).isNull with
      | true =>
          rw [readColumn_empty named empty]
          cases shown : fromSql spelling field (row column) <;> rw [shown] at empty read <;>
            try cases empty
          rw [wireForm_null] at read
          exact read
      | false =>
          unfold readColumn
          rw [personal, rowToJson_get named empty]
          exact read
  | some filed =>
      have nullable := entity.absentable column field named (by rw [personal]; nofun)
      have sealed' : field.sealedUnder ≠ none := by rw [personal]; nofun
      obtain ⟨idField, idNamed, idPlain⟩ := id_declared named personal
      have id : ((rowToJson spelling entity.toEntityDef row).get _).bind scalarToString =
          scalarToString (fromSql spelling idField (row _)) := shown_scalar idNamed
      have ids := represents.ids _ _ idNamed idPlain
      have holds := represents.filed column field filed named personal
      generalize cell : row column = held at holds
      generalize value : columns column = kept at holds
      cases holds with
      | empty =>
          rw [readColumn_empty named (by rw [cell, fromSql_null]; rfl)]
          exact entity.absent column field named nullable
      | readable owner secret held owned timeless has kinded reads =>
          have shown : fromSql spelling field _ = _ := fromSql_sealed sealed' (armor.text (encryptWith secret
            column (sealText spelling field.kind (columnForm spelling field.kind
              (language.written (.plain held))))))
          unfold readColumn
          rw [personal, rowToJson_get named (by rw [cell, shown]; rfl), cell, shown]
          dsimp only [decryptField, Json.asStr]
          rw [id, ids (timeless idField idNamed), owned]
          dsimp only
          rw [decrypt_encrypted, if_pos has]
          dsimp only
          rw [sealedColumn_reads lawful numerals kinded.holds, reads]
          change Except.ok (if field.isNullable then _ else _) = _
          rw [if_pos nullable]
      | lost owner secret plaintext owned timeless old gone =>
          have shown : fromSql spelling field _ = _ := fromSql_sealed sealed' (armor.text (encryptWith secret
            column plaintext))
          unfold readColumn
          rw [personal, rowToJson_get named (by rw [cell, shown]; rfl), cell, shown]
          dsimp only [decryptField, Json.asStr]
          rw [id, ids (timeless idField idNamed), owned]
          dsimp only
          rw [decrypt_encrypted, if_neg gone]
          exact entity.absent column field named nullable

end Represents

end Hekla.Language
