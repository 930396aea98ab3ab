import Hekla.Keys.Store
import Hekla.Language.Values
import Hekla.Library.Runs

/-!
# Writing the rows of a projector

A handler puts a row and deletes one by its key, and reads a row back.  A row
goes where its own key column says, and is asked for by the text of a key.  A
sealed column holds what the secret of the row's subject makes of the value's
text, and nothing once the subject has no secret.
-/

namespace Hekla.Language

open Hekla.Library Hekla.Host Hekla.Reads
open Hekla.Derived (FieldKind)
open Hekla.Keys (Identity Secret Ciphertext encryptWith plaintextUnder)

/-! ## Secrets -/

/-- How a ciphertext is spelled as text. -/
structure Armor where
  text : Ciphertext → String
  read : String → Option Ciphertext
  reads : ∀ ciphertext, read (text ciphertext) = some ciphertext

theorem identity_lawful : LawfulBEq Identity := inferInstance

attribute [local instance] identity_lawful

theorem nothing_drawn (identity : Identity) (secret' : Secret)
    (held : (fun _ : Identity => (none : Option Secret)) identity = some secret') : secret' < 0 := by
  cases held

/-- The secret each subject has, out of those drawn so far. -/
structure Vault where
  secret : Identity → Option Secret := fun _ => none
  entropy : Nat := 0
  drawn : ∀ identity secret', secret identity = some secret' → secret' < entropy := by
    exact nothing_drawn

namespace Vault

variable (vault : Vault) (armor : Armor)

/-- Erase subjects: those named, and those whose secrets were wrapped under theirs. -/
def erase (gone : List Identity) : Vault where
  secret identity := if identity ∈ gone then none else vault.secret identity
  entropy := vault.entropy
  drawn := by
    intro identity secret held
    split at held
    · cases held
    · exact vault.drawn identity secret held

/-- A subject gets a secret when a first value is sealed for it. -/
def mint (owner : Identity) : Vault where
  secret identity :=
    if identity = owner then some ((vault.secret owner).getD vault.entropy) else vault.secret identity
  entropy := vault.entropy + 1
  drawn := by
    intro identity secret held
    split at held
    · obtain rfl := Option.some.inj held
      cases kept : vault.secret owner with
      | none => exact Nat.lt_succ_self _
      | some secret => exact Nat.lt_succ_of_lt (vault.drawn owner secret kept)
    · exact Nat.lt_succ_of_lt (vault.drawn identity secret held)

/-- Seal under the secret there is; a projector never makes one. -/
def encryptSubjectExisting (subject id field plaintext : String) : Option String :=
  (vault.secret (subject, id)).map fun secret => armor.text (encryptWith secret field plaintext)

def decryptSubject (subject id field ciphertext : String) : Option String :=
  (vault.secret (subject, id)).bind fun secret =>
    (armor.read ciphertext).bind (plaintextUnder secret field)

end Vault

/-! ## Entities -/

/-- The column that holds a subject's id: the first of its type. -/
def idColumn (entity : EntityDef) (subject : String) : String :=
  ((entity.fields.find? fun column => column.2.identifies == some subject).map Prod.fst).getD subject

/-- An entity as it was declared.  A column has a type, and a sealed one a type of
what its seals hold; it is sealed under the id that the row has of its subject,
and may be absent.  An id is never sealed. -/
structure Declared (language : Heklang) extends Entity where
  keyField : Reads.FieldMeta
  keyed : toEntity.field key = some keyField
  ty : String → language.Ty
  content : String → language.Ty
  filedBy : ∀ column field filed, toEntity.field column = some field →
    field.sealedUnder = some filed → filed.idField = idColumn toEntityDef filed.subject
  plainIds : ∀ column ∈ fields, column.2.identifies ≠ none → column.2.sealedUnder = none
  absentable : ∀ column field, toEntity.field column = some field →
    field.sealedUnder ≠ none → field.isNullable = true
  absent : ∀ column field, toEntity.field column = some field → field.isNullable = true →
    language.fromJson .null (ty column) = .ok .none

/-- A row as a handler has it: the values it gives, by column. -/
abbrev HeklangRow (language : Heklang) := String → Option (Value language.Plain)

/-! ## Values -/

section Values

variable (spelling : Spelling) (language : Heklang) (armor : Armor)

/-- The text of a value that is no seal. -/
def plaintextScalar (value : Value language.Plain) : Option String :=
  match value.peeled with
  | .sealed .. => none
  | _ => scalarToString (language.written value)

/-- What is to be sealed: a seal that was moved here is opened first. -/
def contentJson (vault : Vault) (kind : FieldKind) (value : Value language.Plain) : Option Json :=
  match value.peeled with
  | .sealed field subject id content =>
      (vault.decryptSubject armor subject id field content).map (unsealedJson spelling kind)
  | _ => some (language.written value)

/-- What a column is given to store, before the form of its kind: a column that
the row does not mention is empty, and so is a sealed one whose subject is gone. -/
def putColumn (vault : Vault) (row : HeklangRow language) (name : String) (field : Reads.FieldMeta) :
    Except String Json :=
  match row name with
  | none => .ok .null
  | some value =>
      match field.sealedUnder with
      | none => .ok (language.written value)
      | some filed =>
          if (language.written value).isNull then .ok .null
          else
            match (row filed.idField).bind (plaintextScalar language) with
            | none => .error
                (s!"row has no `{filed.idField}` to file `{filed.subject}`" ++ "'s key under")
            | some id =>
                match contentJson spelling language armor vault field.kind value with
                | none => .ok .null
                | some json =>
                    .ok ((vault.encryptSubjectExisting armor filed.subject id name
                      (sealText spelling field.kind (columnForm spelling field.kind json))).elim
                        .null .str)

variable {language} {entity : Declared language}

/-- Put a row, under the key that its own column has. -/
def RowWriter.put {spelling : Spelling} (lawful : spelling.Lawful) (armor : Armor) (vault : Vault)
    (row : HeklangRow language) (model : ReadModel spelling entity.toEntity) :
    Except String (ReadModel spelling entity.toEntity) :=
  match entity.fields.mapM fun column =>
    (putColumn spelling language armor vault row column.1 column.2).map fun json => (column.1, json) with
  | .error why => .error why
  | .ok values => model.put lawful values

/-- The text in a sealed column of a stored row, or nothing once its subject is gone. -/
def decryptField (vault : Vault) (stored : Json) (filed : Seal) (name : String) (raw : Json) :
    Except String (Option String) :=
  match raw.asStr with
  | none => .ok (some ((scalarToString raw).getD (spelling.jsonText raw)))
  | some ciphertext =>
      match (stored.get filed.idField).bind scalarToString with
      | none => .error (s!"row has no `{filed.idField}` to file `{filed.subject}`" ++ "'s key under")
      | some id => .ok (vault.decryptSubject armor filed.subject id name ciphertext)

/-- A column of a stored row, as a value of its type. -/
def readColumn (entity : Declared language) (vault : Vault) (stored : Json) (name : String)
    (field : Reads.FieldMeta) : Except String (Value language.Plain) :=
  match field.sealedUnder, stored.get name with
  | some filed, some raw =>
      match decryptField spelling armor vault stored filed name raw with
      | .error why => .error why
      | .ok none => language.fromJson .null (entity.ty name)
      | .ok (some plaintext) =>
          (language.fromSealed (sealedColumn spelling field.kind plaintext) (entity.content name)).map
            fun read => if field.isNullable then .some read else read
  | none, some raw =>
      language.fromJson (toHeklangJson (wireForm spelling field.kind raw)) (entity.ty name)
  | _, none => language.fromJson .null (entity.ty name)

/-- The row under the text of a key. -/
def RowWriter.row {spelling : Spelling} (armor : Armor) (vault : Vault)
    (model : ReadModel spelling entity.toEntity) (key : String) :
    Except String (Option (List (String × Value language.Plain))) :=
  match model.get key with
  | none => .ok none
  | some stored =>
      (entity.fields.mapM fun column =>
        (readColumn spelling armor entity vault stored column.1 column.2).map fun value =>
          (column.1, value)).map some

end Values

/-! ## What handlers are given to write -/

section Typed

variable (spelling : Spelling) (language : Heklang) (armor : Armor)

/-- A value of a kind, that is read back from its text where it is a document. -/
structure OfKind (kind : FieldKind) (held : language.Plain) : Prop where
  holds : Holds kind.base (language.written (.plain held))
  documented : Documented spelling kind (language.written (.plain held))

/-- What a column may be given.  The language reads a value from its JSON, and
from the text a seal has of it; an absent value and an empty document have one JSON. -/
inductive Fitting (field : Reads.FieldMeta) (ty content : language.Ty) :
    Option (Value language.Plain) → Prop where
  | unset (nullable : field.isNullable = true) : Fitting field ty content none
  | absent (nullable : field.isNullable = true) : Fitting field ty content (some .none)
  | required (held : language.Plain) (unsealed : field.sealedUnder = none)
      (always : field.isNullable = false) (kinded : OfKind spelling language field.kind held)
      (reads : language.fromJson (toHeklangJson (language.written (.plain held))) ty =
        .ok (.plain held)) :
      Fitting field ty content (some (.plain held))
  | optional (held : language.Plain) (unsealed : field.sealedUnder = none)
      (nullable : field.isNullable = true) (kinded : OfKind spelling language field.kind held)
      (reads : (language.written (.plain held)).isNull = false →
        language.fromJson (toHeklangJson (language.written (.plain held))) ty =
          .ok (.some (.plain held))) :
      Fitting field ty content (some (.some (.plain held)))
  | fresh (held : language.Plain) (personal : field.sealedUnder ≠ none)
      (kinded : OfKind spelling language field.kind held)
      (reads : language.fromSealed (sealText spelling field.kind (language.written (.plain held)))
        content = .ok (.plain held)) :
      Fitting field ty content (some (.some (.plain held)))
  | moved (held : language.Plain) (personal : field.sealedUnder ≠ none)
      (name subject id : String) (secret : Secret)
      (kinded : OfKind spelling language field.kind held)
      (reads : language.fromSealed (sealText spelling field.kind (language.written (.plain held)))
        content = .ok (.plain held)) :
      Fitting field ty content (some (.some (.sealed name subject id (armor.text (encryptWith secret
        name (sealText spelling field.kind (language.written (.plain held))))))))

variable {language} (text : language.Plain → String) (entity : Declared language)

/-- A key of the entity, which is spelled as its JSON is. -/
structure Key where
  held : language.Plain
  kinded : OfKind spelling language entity.keyField.kind held
  reads : language.fromJson (toHeklangJson (language.written (.plain held))) (entity.ty entity.key) =
    .ok (.plain held)
  spelled : scalarToString (language.written (.plain held)) = some (text held)

/-- A row of a key, with a value of its type for each column. -/
structure TypedRow (key : Key spelling text entity) where
  row : HeklangRow language
  keyed : row entity.key = some (.plain key.held)
  fitting : ∀ column field, entity.toEntity.field column = some field →
    Fitting spelling language armor field (entity.ty column) (entity.content column) (row column)

end Typed

/-! ## Transactions -/

section Transactions

variable {spelling : Spelling} {language : Heklang} (lawful : spelling.Lawful) (armor : Armor)
  (text : language.Plain → String) {entity : Declared language}

/-- The secrets, and the rows of a projector: those committed, and those of the
transaction that is open. -/
structure Writing (spelling : Spelling) (entity : Declared language) where
  vault : Vault
  committed : ReadModel spelling entity.toEntity
  model : ReadModel spelling entity.toEntity

/-- What happens to the rows, and to the secrets beside them. -/
inductive RowAct (spelling : Spelling) (entity : Declared language) where
  | put (key : Key spelling text entity) (row : TypedRow spelling armor text entity key)
  | delete (key : Key spelling text entity)
  | commit
  | rollback
  | erase (gone : List Identity)
  | mint (owner : Identity)

namespace Writing

/-- A table without rows. -/
def start : Writing spelling entity where
  vault := {}
  committed := { rows := [], position := 0, distinct := List.nodup_nil, stored := nofun }
  model := { rows := [], position := 0, distinct := List.nodup_nil, stored := nofun }

/-- The row under a key, as a handler reads it. -/
def row (writing : Writing spelling entity) (key : Key spelling text entity) :
    Except String (Option (List (String × Value language.Plain))) :=
  RowWriter.row armor writing.vault writing.model (text key.held)

/-- One step.  A put that fails is no step: its transaction is rolled back. -/
def step (writing : Writing spelling entity) : RowAct armor text spelling entity →
    Option (Writing spelling entity)
  | .put _ row =>
      (RowWriter.put lawful armor writing.vault row.row writing.model).toOption.map fun model =>
        { writing with model := model }
  | .delete key => some { writing with model := writing.model.delete (text key.held) }
  | .commit => some { writing with committed := writing.model }
  | .rollback => some { writing with model := writing.committed }
  | .erase gone => some { writing with vault := writing.vault.erase gone }
  | .mint owner => some { writing with vault := writing.vault.mint owner }

end Writing

end Transactions

end Hekla.Language
