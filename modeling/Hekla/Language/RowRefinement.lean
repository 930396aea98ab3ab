import Hekla.Language.RowMap

/-!
# A projector's table is its map

Every step of the table is the map's step: a put stores the row under the cell
its key is asked for by, and an erasure takes what was sealed from the rows of
its subjects.  A key that is an instant is stored in one spelling and asked for
in another.
-/

namespace Hekla.Language

open Hekla.Library Hekla.Host Hekla.Reads
open Hekla.Derived (FieldKind)
open Hekla.Keys (Identity Secret Ciphertext encryptWith plaintextUnder)

variable {spelling : Spelling} {language : Heklang} {armor : Armor} {text : language.Plain → String}
  {entity : Declared language} {vault : Vault}

/-- A row that is found again under its key: neither the key nor an id that a
value is sealed for is an instant, and no optional document is the empty one. -/
structure Findable (entity : Declared language) (row : HeklangRow language) : Prop where
  key : entity.keyField.kind.base ≠ .timestamp
  ids : ∀ column filed value, entity.sealedUnder column = some filed → row column = some (.some value) →
    TimelessId entity filed
  documents : ∀ column held, row column = some (.some (.plain held)) →
    (language.written (.plain held)).isNull = false

/-! ## What a put stores -/

section Puts

variable {column : String} {field : Reads.FieldMeta} {row : HeklangRow language} {json : Json}
  {cell : Cell}

/-- What a column that is not sealed is given is what it is read as. -/
theorem plain_stored (lawful : spelling.Lawful) (named : entity.toEntity.field column = some field)
    (unsealed : field.sealedUnder = none) (findable : Findable entity row)
    (fitting : Fitting spelling language armor field (entity.ty column) (entity.content column)
      (row column))
    (given : putColumn spelling language armor vault row column field = .ok json)
    (bound : toSql spelling { kind := field.kind } (storedForm spelling field.kind json) = .ok cell)
    (present : cell = .null → field.kind.isNullable = true) :
    language.fromJson (toHeklangJson (wireForm spelling field.kind
        (fromSql spelling { kind := field.kind } cell))) (entity.ty column) =
      .ok ((row column).getD .none) ∧
    (field.kind.base ≠ .timestamp → scalarToString (fromSql spelling { kind := field.kind } cell) =
      plaintextScalar language ((row column).getD .none)) := by
  have empty (nullable : field.isNullable = true) (null : json = .null) :
      language.fromJson (toHeklangJson (wireForm spelling field.kind
        (fromSql spelling { kind := field.kind } cell))) (entity.ty column) = .ok .none ∧
      (field.kind.base ≠ .timestamp →
        scalarToString (fromSql spelling { kind := field.kind } cell) =
          plaintextScalar language .none) := by
    rw [null, storedForm_null] at bound
    cases bound
    rw [fromSql_null, wireForm_null]
    exact ⟨entity.absent column field named nullable, fun _ => rfl⟩
  have document (held : language.Plain) (kinded : OfKind spelling language field.kind held)
      (same : json = language.written (.plain held)) :
      wireForm spelling field.kind (fromSql spelling { kind := field.kind } cell) =
        language.written (.plain held) := by
    rw [same] at bound
    have storable := storable_of_put lawful kinded.holds ⟨cell, bound, present⟩
    obtain ⟨stored, again, -, back⟩ :=
      putJson_reads lawful kinded.holds kinded.documented storable
    rw [bound] at again
    rw [Except.ok.inj again, back]
  have scalar (held : language.Plain)
      (back : wireForm spelling field.kind (fromSql spelling { kind := field.kind } cell) =
        language.written (.plain held)) (other : field.kind.base ≠ .timestamp) :
      scalarToString (fromSql spelling { kind := field.kind } cell) =
        scalarToString (language.written (.plain held)) := by
    rw [wireForm_of_ne other] at back
    rw [back]
  unfold putColumn at given
  rw [unsealed] at given
  generalize said : row column = value at fitting given
  cases fitting with
  | unset nullable =>
      cases given
      exact empty nullable rfl
  | absent nullable =>
      cases given
      exact empty nullable rfl
  | required held _ _ kinded reads =>
      have back := document held kinded (Except.ok.inj given).symm
      exact ⟨by rw [back]; exact reads, scalar held back⟩
  | optional held _ _ kinded reads =>
      have back := document held kinded (Except.ok.inj given).symm
      exact ⟨by rw [back]; exact reads (findable.documents column held said), scalar held back⟩
  | fresh _ personal => exact absurd unsealed personal
  | moved _ personal => exact absurd unsealed personal

/-- A value is sealed with the secret its subject has, if it has one. -/
theorem value_sealed {filed : Seal} {name owner : String} {kind : FieldKind} {content : language.Ty}
    {held : language.Plain} (personal : field.sealedUnder = some filed)
    (timeless : TimelessId entity filed) (kinded : OfKind spelling language kind held)
    (reads : language.fromSealed (sealText spelling kind (language.written (.plain held))) content =
      .ok (.plain held))
    (bound : toSql spelling field ((vault.encryptSubjectExisting armor filed.subject owner name
      (sealText spelling kind (columnForm spelling kind (language.written (.plain held))))).elim
        .null .str) = .ok cell) :
    SealedHolds armor entity vault spelling filed name kind content (some owner) cell
      (if vault.keeps filed.subject (some owner) then .some (.plain held) else .none) := by
  rw [keeps_some]
  unfold Vault.encryptSubjectExisting at bound
  cases has : vault.secret (filed.subject, owner) with
  | none =>
      rw [has] at bound
      cases bound
      exact .empty
  | some secret =>
      rw [has] at bound
      unfold toSql at bound
      rw [personal] at bound
      cases bound
      exact .readable owner secret held rfl timeless has kinded reads

/-- What a sealed column is given is kept for as long as its subject is. -/
theorem sealed_stored {filed : Seal} (personal : field.sealedUnder = some filed) (findable : Findable entity row)
    (fitting : Fitting spelling language armor field (entity.ty column) (entity.content column)
      (row column))
    (given : putColumn spelling language armor vault row column field = .ok json)
    (bound : toSql spelling field json = .ok cell) (declared : entity.sealedUnder column = some filed) :
    SealedHolds armor entity vault spelling filed column field.kind (entity.content column)
      ((row filed.idField).bind (plaintextScalar language)) cell
      (columnsOf armor entity vault row column) := by
  unfold putColumn at given
  rw [personal] at given
  unfold columnsOf
  rw [declared]
  generalize said : row column = value at fitting given
  cases fitting with
  | unset =>
      cases given
      cases bound
      exact .empty
  | absent =>
      cases given
      cases bound
      dsimp only [revealed]
      rw [ite_self]
      exact .empty
  | required _ unsealed => cases personal.symm.trans unsealed
  | optional _ unsealed => cases personal.symm.trans unsealed
  | fresh held _ kinded reads =>
      dsimp only at given ⊢
      have told : (language.written (.some (.plain held))).isNull = false :=
        findable.documents column held said
      rw [if_neg (by rw [told]; exact Bool.false_ne_true)] at given
      cases filing : (row filed.idField).bind (plaintextScalar language) with
      | none =>
          rw [filing] at given
          cases given
      | some owner =>
          rw [filing] at given
          rw [← Except.ok.inj given] at bound
          exact value_sealed personal (findable.ids column filed _ declared said) kinded reads bound
  | moved held _ name subject id secret kinded reads =>
      dsimp only at given ⊢
      rw [if_neg (by exact Bool.false_ne_true)] at given
      cases filing : (row filed.idField).bind (plaintextScalar language) with
      | none =>
          rw [filing] at given
          cases given
      | some owner =>
          rw [filing] at given
          dsimp only [contentJson, Value.peeled, revealed] at given ⊢
          rw [decrypt_encrypted] at given ⊢
          by_cases has : vault.secret (subject, id) = some secret
          · rw [if_pos has] at given ⊢
            dsimp only [Option.map_some] at given ⊢
            rw [unsealedJson_sealText kinded.holds kinded.documented] at given
            rw [← Except.ok.inj given] at bound
            rw [reads]
            exact value_sealed personal (findable.ids column filed _ declared said) kinded reads bound
          · rw [if_neg has] at given ⊢
            rw [← Except.ok.inj given] at bound
            cases bound
            dsimp only
            rw [ite_self]
            exact .empty

end Puts

/-! ## Rows that are put -/

section Rows

/-- The id that a row says a sealed column goes by. -/
theorem columnsOf_plain {row : HeklangRow language} {column : String}
    (plain : entity.sealedUnder column = none) :
    columnsOf armor entity vault row column = (row column).getD .none := by
  unfold columnsOf
  rw [plain]
  cases row column <;> rfl

theorem sealedUnder_of_field {column : String} {field : Reads.FieldMeta}
    (named : entity.toEntity.field column = some field) :
    entity.sealedUnder column = field.sealedUnder := by
  unfold Declared.sealedUnder
  rw [named, Option.bind_some]

theorem plaintextScalar_getD (value : Option (Value language.Plain)) :
    plaintextScalar language (value.getD .none) = value.bind (plaintextScalar language) := by
  cases value <;> rfl

/-- The id of a sealed column is what the row that is put says. -/
theorem columnsOf_id {row : HeklangRow language} {column : String} {field : Reads.FieldMeta}
    {filed : Seal} (named : entity.toEntity.field column = some field)
    (personal : field.sealedUnder = some filed) :
    plaintextScalar language (columnsOf armor entity vault row filed.idField) =
      (row filed.idField).bind (plaintextScalar language) := by
  obtain ⟨idField, idNamed, idPlain⟩ := id_declared named personal
  rw [columnsOf_plain (by rw [sealedUnder_of_field idNamed, idPlain]), plaintextScalar_getD]

/-- A put stores, under the cell of its key, a row that holds what it says. -/
theorem put_stored (lawful : spelling.Lawful)     {key : Key spelling text entity} (given : TypedRow spelling armor text entity key)
    (findable : Findable entity given.row) {model next : ReadModel spelling entity.toEntity}
    (put_ : RowWriter.put lawful armor vault given.row model = .ok next) :
    ∃ row, next.rows = replaced entity.key row model.rows ∧ row entity.key = keyCell key ∧
      Represents armor entity vault spelling (columnsOf armor entity vault given.row) row := by
  unfold RowWriter.put at put_
  split at put_
  · cases put_
  · next values mapped =>
      obtain ⟨cells, bound, whole, rows⟩ := model.put_ok put_
      have names : values.map Prod.fst = entity.fields.map Prod.fst := by
        refine map_of_mapM_ok mapped ?_
        intro column value made
        cases read : putColumn spelling language armor vault given.row column.1 column.2 with
        | error why =>
            rw [read] at made
            cases made
        | ok json =>
            rw [read] at made
            cases made
            rfl
      have cell (column : String) (field : Reads.FieldMeta)
          (named : entity.toEntity.field column = some field) :
          ∃ json, putColumn spelling language armor vault given.row column field = .ok json ∧
            toSql spelling field (if field.sealedUnder.isSome then json
              else storedForm spelling field.kind json) =
                .ok (rowOf entity.toEntityDef cells column) := by
        obtain ⟨value, made⟩ := ok_of_mapM_ok mapped (mem_fields named)
        have member := (mem_of_mapM_ok mapped value).mpr ⟨_, mem_fields named, made⟩
        cases read : putColumn spelling language armor vault given.row column field with
        | error why =>
            rw [read] at made
            cases made
        | ok json =>
            rw [read] at made
            cases made
            have stored := lookup_bound entity.distinct (fun name =>
              ((storedRow spelling entity.toEntityDef values).get name).getD .null) bound
              (mem_fields named)
            rw [storedRow_get (names ▸ entity.distinct) member named, Option.getD_some] at stored
            exact ⟨json, rfl, stored⟩
      have present := stored_of_bound lawful bound whole
      have plain (column : String) (field : Reads.FieldMeta)
          (named : entity.toEntity.field column = some field) (unsealed : field.sealedUnder = none) :
          language.fromJson (toHeklangJson (wireForm spelling field.kind
              (fromSql spelling field (rowOf entity.toEntityDef cells column)))) (entity.ty column) =
            .ok (columnsOf armor entity vault given.row column) ∧
          (field.kind.base ≠ .timestamp →
            scalarToString (fromSql spelling field (rowOf entity.toEntityDef cells column)) =
              plaintextScalar language (columnsOf armor entity vault given.row column)) := by
        obtain ⟨json, read, stored⟩ := cell column field named
        rw [toSql_unsealed unsealed, unsealed] at stored
        rw [fromSql_unsealed unsealed, columnsOf_plain (by rw [sealedUnder_of_field named, unsealed])]
        refine plain_stored lawful named unsealed findable (given.fitting column field named) read
          stored fun empty => ?_
        cases nullable : field.isNullable with
        | true => exact nullable
        | false => exact absurd empty (present.present column field named nullable)
      refine ⟨rowOf entity.toEntityDef cells, rows, ?_, ?_, ?_, ?_⟩
      · obtain ⟨-, -, unsealed⟩ := key_facts entity
        obtain ⟨json, read, stored⟩ := cell entity.key entity.keyField entity.keyed
        unfold putColumn at read
        rw [given.keyed, unsealed] at read
        rw [toSql_unsealed unsealed, unsealed, ← Except.ok.inj read] at stored
        exact Except.ok.inj (stored.symm.trans (key_stored findable.key key))
      · exact fun column field named unsealed => (plain column field named unsealed).1
      · exact fun column field named unsealed => (plain column field named unsealed).2
      · intro column field filed named personal
        obtain ⟨json, read, stored⟩ := cell column field named
        rw [personal] at stored
        rw [columnsOf_id named personal]
        exact sealed_stored personal findable (given.fitting column field named) read stored
          (by rw [sealedUnder_of_field named, personal])

end Rows

/-! ## Steps -/

section Steps

/-- A sealed column keeps its value through a change of secrets that takes no
subject's for another, and loses it with its secret. -/
theorem SealedHolds.erase {filed : Seal} {name : String} {kind : FieldKind} {content : language.Ty}
    {owner : Option String} {cell : Cell} {value : Value language.Plain}
    (holds : SealedHolds armor entity vault spelling filed name kind content owner cell value)
    (gone : List Identity) :
    SealedHolds armor entity (vault.erase gone) spelling filed name kind content owner cell
      (if owner.any fun id => (filed.subject, id) ∈ gone then .none else value) := by
  cases holds with
  | empty =>
      rw [ite_self]
      exact .empty
  | readable id secret held owned timeless has kinded reads =>
      subst owned
      by_cases erased : (filed.subject, id) ∈ gone
      · rw [if_pos (by simpa using erased)]
        refine .lost id secret _ rfl timeless (vault.drawn _ _ has) ?_
        rw [erase_secret_of_mem erased]
        nofun
      · rw [if_neg (by simpa using erased)]
        exact .readable id secret held rfl timeless (by rw [erase_secret_of_notMem erased, has]) kinded reads
  | lost id secret plaintext owned timeless old lost_ =>
      rw [ite_self]
      refine .lost id secret plaintext owned timeless old ?_
      by_cases erased : (filed.subject, id) ∈ gone
      · rw [erase_secret_of_mem erased]
        nofun
      · rw [erase_secret_of_notMem erased]
        exact lost_

/-- A secret that is lost is not drawn again. -/
theorem SealedHolds.mint {filed : Seal} {name : String} {kind : FieldKind} {content : language.Ty}
    {owner : Option String} {cell : Cell} {value : Value language.Plain}
    (holds : SealedHolds armor entity vault spelling filed name kind content owner cell value)
    (identity : Identity) :
    SealedHolds armor entity (vault.mint identity) spelling filed name kind content owner cell value := by
  cases holds with
  | empty => exact .empty
  | readable id secret held owned timeless has kinded reads =>
      refine .readable id secret held owned timeless ?_ kinded reads
      rcases mint_secret identity (filed.subject, id) with kept | ⟨fresh, -⟩
      · rw [kept, has]
      · rw [has] at fresh
        cases fresh
  | lost id secret plaintext owned timeless old gone =>
      refine .lost id secret plaintext owned timeless (Nat.lt_succ_of_lt old) ?_
      rcases mint_secret identity (filed.subject, id) with kept | ⟨-, drawn⟩
      · rw [kept]
        exact gone
      · rw [drawn]
        intro same
        exact absurd (Option.some.inj same) (Nat.ne_of_gt old)

/-- An erased row holds what is left of it. -/
theorem Represents.erase {columns : Columns language} {row : Row}
    (represents : Represents armor entity vault spelling columns row) (gone : List Identity) :
    Represents armor entity (vault.erase gone) spelling (blanked entity gone columns) row := by
  have plain (column : String) (field : Reads.FieldMeta)
      (named : entity.toEntity.field column = some field) (unsealed : field.sealedUnder = none) :
      blanked entity gone columns column = columns column := by
    unfold blanked
    rw [sealedUnder_of_field named, unsealed]
  constructor
  · intro column field named unsealed
    rw [plain column field named unsealed]
    exact represents.plain column field named unsealed
  · intro column field named unsealed
    rw [plain column field named unsealed]
    exact represents.ids column field named unsealed
  · intro column field filed named personal
    obtain ⟨idField, idNamed, idPlain⟩ := id_declared named personal
    rw [plain filed.idField idField idNamed idPlain]
    unfold blanked
    rw [sealedUnder_of_field named, personal]
    exact (represents.filed column field filed named personal).erase gone

theorem Represents.mint {columns : Columns language} {row : Row}
    (represents : Represents armor entity vault spelling columns row) (owner : Identity) :
    Represents armor entity (vault.mint owner) spelling columns row where
  plain := represents.plain
  ids := represents.ids
  filed column field filed named personal :=
    (represents.filed column field filed named personal).mint owner

/-- A table that has the rows of a map. -/
abbrev Models (armor : Armor) (vault : Vault) (rows : Key spelling text entity → Option (Columns language))
    (model : ReadModel spelling entity.toEntity) : Prop :=
  Lists keyCell (fun row : Row => row entity.key) (Represents armor entity vault spelling) rows
    model.rows

/-- The table, committed and not, is the map. -/
structure Refines (armor : Armor) (writing : Writing spelling entity)
    (map : RowMap spelling text entity) : Prop where
  vault : map.vault = writing.vault
  committed : Models armor writing.vault map.committed writing.committed
  rows : Models armor writing.vault map.rows writing.model

theorem refines_start : Refines armor (Writing.start : Writing spelling entity)
    ({} : RowMap spelling text entity) where
  vault := rfl
  committed := .empty
  rows := .empty

/-- A step that puts nothing, or a row that is found again. -/
def RowAct.Findable : RowAct armor text spelling entity → Prop
  | .put _ row => Language.Findable entity row.row
  | _ => True

/-- Every step of the table is the map's. -/
theorem step_refines (lawful : spelling.Lawful) (key : entity.keyField.kind.base ≠ .timestamp)
    {writing next : Writing spelling entity} {map : RowMap spelling text entity}
    {act : RowAct armor text spelling entity} (refines : Refines armor writing map)
    (findable : act.Findable) (stepped : writing.step lawful armor text act = some next) :
    Refines armor next (map.step act) := by
  classical
  have injective : Function.Injective (keyCell : Key spelling text entity → Cell) :=
    keyCell_injective key
  cases act with
  | put key row =>
      obtain ⟨model, made, rfl⟩ := Option.map_eq_some_iff.mp stepped
      have put_ : RowWriter.put lawful armor writing.vault row.row writing.model = .ok model := by
        cases tried : RowWriter.put lawful armor writing.vault row.row writing.model with
        | error why =>
            rw [tried] at made
            cases made
        | ok done =>
            rw [tried] at made
            cases made
            rfl
      obtain ⟨stored, rows, filed, represents⟩ := put_stored lawful row findable put_
      refine ⟨refines.vault, refines.committed, ?_⟩
      unfold Models
      rw [rows, RowMap.step, refines.vault]
      exact refines.rows.put injective filed represents
  | delete key =>
      cases stepped
      refine ⟨refines.vault, refines.committed, ?_⟩
      have deleted := refines.rows.delete injective key
      unfold Models ReadModel.delete
      dsimp only
      rw [entity.keyed]
      exact deleted
  | commit =>
      cases stepped
      exact ⟨refines.vault, refines.rows, refines.rows⟩
  | rollback =>
      cases stepped
      exact ⟨refines.vault, refines.committed, refines.committed⟩
  | erase gone =>
      cases stepped
      refine ⟨by rw [RowMap.step, refines.vault], ?_, ?_⟩
      · exact refines.committed.change _ fun _ _ represents => represents.erase gone
      · exact refines.rows.change _ fun _ _ represents => represents.erase gone
  | mint owner =>
      cases stepped
      refine ⟨by rw [RowMap.step, refines.vault], ?_, ?_⟩
      · exact refines.committed.imp fun _ _ represents => represents.mint owner
      · exact refines.rows.imp fun _ _ represents => represents.mint owner

/-- Nothing was put. -/
structure Untouched (writing : Writing spelling entity) (map : RowMap spelling text entity) : Prop where
  committed : writing.committed.rows = [] ∧ ∀ key, map.committed key = none
  rows : writing.model.rows = [] ∧ ∀ key, map.rows key = none

/-- Where every key is an instant, there is no row that could be put. -/
theorem untouched_step (instant : entity.keyField.kind.base = .timestamp)
    {writing next : Writing spelling entity} {map : RowMap spelling text entity}
    {act : RowAct armor text spelling entity} {lawful : spelling.Lawful}
    (untouched : Untouched writing map) (findable : act.Findable)
    (stepped : writing.step lawful armor text act = some next) : Untouched next (map.step act) := by
  classical
  obtain ⟨committed, rows⟩ := untouched
  cases act with
  | put key row => exact absurd instant findable.key
  | delete key =>
      cases stepped
      refine ⟨committed, ?_, ?_⟩
      · unfold ReadModel.delete
        dsimp only
        rw [rows.1, List.filter_nil]
      · intro other
        unfold RowMap.step
        dsimp only
        rw [Function.update_apply]
        split
        · rfl
        · exact rows.2 other
  | commit =>
      cases stepped
      exact ⟨rows, rows⟩
  | rollback =>
      cases stepped
      exact ⟨committed, committed⟩
  | erase gone =>
      cases stepped
      refine ⟨⟨committed.1, ?_⟩, rows.1, ?_⟩
      · intro key
        exact Option.map_eq_none_iff.mpr (committed.2 key)
      · intro key
        exact Option.map_eq_none_iff.mpr (rows.2 key)
  | mint owner =>
      cases stepped
      exact ⟨committed, rows⟩

end Steps

/-! ## What handlers read -/

/-- The table is the map: what is read under a key is what the map has, and the
rows are those of the keys that the map has, one for each. -/
structure Agrees (armor : Armor) (writing : Writing spelling entity)
    (map : RowMap spelling text entity) : Prop where
  reads : ∀ key, writing.row armor text key = .ok ((map.rows key).map (served entity))
  rows : ∃ keys : List (Key spelling text entity), keys.Nodup ∧
    (∀ key, key ∈ keys ↔ (map.rows key).isSome = true) ∧
    writing.model.rows.map (fun row => row entity.key) = keys.map keyCell

theorem Refines.agrees (lawful : spelling.Lawful) (numerals : Numerals spelling)
    (other : entity.keyField.kind.base ≠ .timestamp) {writing : Writing spelling entity}
    {map : RowMap spelling text entity} (refines : Refines armor writing map) :
    Agrees armor writing map := by
  refine ⟨?_, refines.rows.live (keyCell_injective other)⟩
  intro key
  have looked : writing.model.get (text key.held) =
      (writing.model.rows.find? fun row => row entity.key == keyCell key).map
        (rowToJson spelling entity.toEntityDef) := by
    unfold ReadModel.get
    rw [entity.keyed]
    rfl
  unfold Writing.row RowWriter.row
  rw [looked]
  cases held : map.rows key with
  | none =>
      rw [refines.rows.find_none (keyCell_injective other) held]
      rfl
  | some columns =>
      obtain ⟨row, found, represents⟩ := refines.rows.find_some held
      rw [found]
      dsimp only [Option.map_some]
      have read : ∀ column ∈ entity.fields,
          (readColumn spelling armor entity writing.vault (rowToJson spelling entity.toEntityDef row)
            column.1 column.2).map (fun value => (column.1, value)) =
              .ok (column.1, columns column.1) := by
        intro column member
        rw [readColumn_represents lawful numerals represents (field_of_mem member)]
        rfl
      rw [mapM_ok read]
      rfl

theorem Untouched.agrees {writing : Writing spelling entity} {map : RowMap spelling text entity}
    (untouched : Untouched writing map) : Agrees armor writing map := by
  obtain ⟨-, empty, none_⟩ := untouched
  refine ⟨?_, [], List.nodup_nil, ?_, by rw [empty]; rfl⟩
  · intro key
    unfold Writing.row RowWriter.row ReadModel.get
    rw [empty, none_ key]
    rfl
  · intro key
    rw [none_ key]
    exact ⟨nofun, nofun⟩

/-- What a run of steps makes of an empty map. -/
noncomputable def RowMap.run (acts : List (RowAct armor text spelling entity)) :
    RowMap spelling text entity :=
  acts.foldl RowMap.step {}

/-- A projector's table is a map to its handlers, in every run of puts, deletes,
transactions and erasures that puts no row under an instant. -/
theorem rows_like_map (spelling : Spelling) (lawful : spelling.Lawful) (numerals : Numerals spelling)
    (language : Heklang) (armor : Armor) (text : language.Plain → String)
    (entity : Declared language) (acts : List (RowAct armor text spelling entity))
    (findable : ∀ act ∈ acts, act.Findable) (final : Writing spelling entity)
    (ran : run (Writing.step lawful armor text) Writing.start acts = some final) :
    Agrees armor final (RowMap.run acts) := by
  by_cases instant : entity.keyField.kind.base = .timestamp
  · have untouched : Untouched final (RowMap.run acts) := by
      refine run_simulates Untouched ?_ ⟨⟨rfl, fun _ => rfl⟩, rfl, fun _ => rfl⟩ findable ran
      intro writing map act next untouched findable stepped
      exact untouched_step instant untouched findable stepped
    exact untouched.agrees
  · have refines : Refines armor final (RowMap.run acts) := by
      refine run_simulates (Refines armor) ?_ refines_start findable ran
      intro writing map act next refines findable stepped
      exact step_refines lawful instant refines findable stepped
    exact refines.agrees lawful numerals instant

/-! ## Two tables -/

/-- A ciphertext whose parts are told apart by their lengths. -/
def lengths : Armor where
  text ciphertext := String.ofList (List.replicate ciphertext.key 'k' ++ '.' ::
    (List.replicate ciphertext.bound.toList.length 'f' ++ '.' ::
      (ciphertext.bound.toList ++ ciphertext.message.toList)))
  read text :=
    let fields := (text.toList.dropWhile (· == 'k')).tail
    let size := (fields.takeWhile (· == 'f')).length
    let body := (fields.dropWhile (· == 'f')).tail
    some ⟨(text.toList.takeWhile (· == 'k')).length, String.ofList (body.take size),
      String.ofList (body.drop size)⟩
  reads ciphertext := by
    obtain ⟨secret, field, plaintext⟩ := ciphertext
    have key : ∀ char ∈ List.replicate secret 'k', (char == 'k') = true := by
      intro char member
      rw [List.eq_of_mem_replicate member, beq_self_eq_true]
    have bound : ∀ char ∈ List.replicate field.toList.length 'f', (char == 'f') = true := by
      intro char member
      rw [List.eq_of_mem_replicate member, beq_self_eq_true]
    simp [List.takeWhile_append_of_pos key, List.dropWhile_append_of_pos key,
      List.takeWhile_append_of_pos bound, List.dropWhile_append_of_pos bound]

/-- The text of a document that is a scalar. -/
def documentText (held : optionalDocuments.Plain) : String := (scalarToString (fromHeklangJson held)).getD ""

/-- A table of moments, keyed by them. -/
def momentsTable : Entity where
  name := "moments"
  key := "moment"
  fields := [("moment", { kind := .timestamp })]
  indexes := []
  valid := by decide
  distinct := by decide

theorem momentsTable_field {column : String} {field : Reads.FieldMeta}
    (named : momentsTable.field column = some field) :
    column = "moment" ∧ field = { kind := .timestamp } := by
  have member : (column, field) ∈ momentsTable.fields := mem_fields named
  exact Prod.mk.inj (List.mem_singleton.mp member)

def moments : Declared optionalDocuments where
  toEntity := momentsTable
  keyField := { kind := .timestamp }
  keyed := rfl
  ty _ := false
  content _ := false
  filedBy := by
    intro column field filed named personal
    obtain ⟨-, rfl⟩ := momentsTable_field named
    cases personal
  plainIds := by decide
  absentable := by
    intro column field named personal
    obtain ⟨-, rfl⟩ := momentsTable_field named
    exact absurd rfl personal
  absent := by
    intro column field named nullable
    obtain ⟨-, rfl⟩ := momentsTable_field named
    cases nullable

/-- The instant half a second past the new year. -/
def newYearKey : Key fortyTwo documentText moments where
  held := .num "1704067200500000"
  kinded := ⟨.timestamp 1704067200500000, nofun⟩
  reads := rfl
  spelled := rfl

def newYearRow : TypedRow fortyTwo lengths documentText moments newYearKey where
  row column := if column = "moment" then some (.plain newYearKey.held) else none
  keyed := rfl
  fitting := by
    intro column field named
    obtain ⟨rfl, rfl⟩ := momentsTable_field named
    exact .required _ rfl rfl newYearKey.kinded newYearKey.reads

def newYearPut : List (RowAct lengths documentText fortyTwo moments) := [.put newYearKey newYearRow]

/-- A row that is put under an instant is not found there. -/
theorem instant_key_not_found : ¬ ∀ (spelling : Spelling) (lawful : spelling.Lawful),
    Numerals spelling → ∀ (language : Heklang) (armor : Armor) (text : language.Plain → String)
    (entity : Declared language) (acts : List (RowAct armor text spelling entity))
    (final : Writing spelling entity),
    run (Writing.step lawful armor text) Writing.start acts = some final →
    Agrees armor final (RowMap.run acts) := by
  intro claimed
  have put_ : (run (Writing.step fortyTwo_lawful lengths documentText) Writing.start
      newYearPut).map (fun final => (final.model.get "1704067200500000").isNone) =
        some true := by decide
  obtain ⟨final, ran, missing⟩ := Option.map_eq_some_iff.mp put_
  have agrees := claimed fortyTwo fortyTwo_lawful fortyTwo_numerals optionalDocuments lengths
    documentText moments newYearPut final ran
  have read := agrees.reads newYearKey
  unfold Writing.row RowWriter.row at read
  have spelled : documentText newYearKey.held = "1704067200500000" := rfl
  rw [spelled, Option.isNone_iff_eq_none.mp missing] at read
  have held : (RowMap.run newYearPut).rows newYearKey =
      some (columnsOf lengths moments {} newYearRow.row) := RowMap.step_put {} newYearKey newYearRow
  rw [held] at read
  cases read

/-- A table of accounts, with an address that is sealed for the owner. -/
def accountsTable : Entity where
  name := "accounts"
  key := "account"
  fields := [("account", { kind := .text none }),
    ("owner", { kind := .i64, identifies := some "Owner" }),
    ("address", { kind := .optional (.text none), sealedUnder := some ⟨"Owner", "owner", []⟩ })]
  indexes := []
  valid := by decide
  distinct := by decide

theorem accountsTable_field {column : String} {field : Reads.FieldMeta}
    (named : accountsTable.field column = some field) :
    column = "account" ∧ field = { kind := .text none } ∨
    column = "owner" ∧ field = { kind := .i64, identifies := some "Owner" } ∨
    column = "address" ∧
      field = { kind := .optional (.text none), sealedUnder := some ⟨"Owner", "owner", []⟩ } := by
  have member : (column, field) ∈ accountsTable.fields := mem_fields named
  simpa [accountsTable] using member

def accounts : Declared optionalDocuments where
  toEntity := accountsTable
  keyField := { kind := .text none }
  keyed := rfl
  ty column := column == "address"
  content _ := false
  filedBy := by
    intro column field filed named personal
    rcases accountsTable_field named with ⟨-, rfl⟩ | ⟨-, rfl⟩ | ⟨-, rfl⟩
    · cases personal
    · cases personal
    · cases personal
      decide
  plainIds := by decide
  absentable := by
    intro column field named personal
    rcases accountsTable_field named with ⟨-, rfl⟩ | ⟨-, rfl⟩ | ⟨-, rfl⟩
    · exact absurd rfl personal
    · exact absurd rfl personal
    · rfl
  absent := by
    intro column field named nullable
    rcases accountsTable_field named with ⟨-, rfl⟩ | ⟨-, rfl⟩ | ⟨rfl, rfl⟩
    · cases nullable
    · cases nullable
    · rfl

def firstAccount : Key fortyTwo documentText accounts where
  held := .str "first"
  kinded := ⟨.text none "first", nofun⟩
  reads := rfl
  spelled := rfl

def firstRow : TypedRow fortyTwo lengths documentText accounts firstAccount where
  row column :=
    if column = "account" then some (.plain firstAccount.held)
    else if column = "owner" then some (.plain (HeklangJson.num "7"))
    else some (.some (.plain (HeklangJson.str "1 High Street")))
  keyed := rfl
  fitting := by
    intro column field named
    rcases accountsTable_field named with ⟨rfl, rfl⟩ | ⟨rfl, rfl⟩ | ⟨rfl, rfl⟩
    · exact .required _ rfl rfl firstAccount.kinded rfl
    · exact .required _ rfl rfl ⟨.i64 7, nofun⟩ rfl
    · exact .fresh _ nofun ⟨.text none "1 High Street", nofun⟩ rfl

theorem firstRow_findable : Findable accounts firstRow.row where
  key := nofun
  ids := by
    intro column filed value personal _
    obtain ⟨field, named, personal⟩ := Option.bind_eq_some_iff.mp personal
    rcases accountsTable_field named with ⟨-, rfl⟩ | ⟨-, rfl⟩ | ⟨-, rfl⟩
    · cases personal
    · cases personal
    · cases personal
      intro idField id
      cases id
      nofun
  documents := by
    intro column held said
    change (if column = "account" then some (Value.plain firstAccount.held)
      else if column = "owner" then some (Value.plain (HeklangJson.num "7"))
      else some (Value.some (Value.plain (HeklangJson.str "1 High Street")))) = _ at said
    split at said
    · cases said
    · split at said
      · cases said
      · cases said
        rfl

/-- An owner has a secret, an account is put, and the owner is erased. -/
def erasedOwner : List (RowAct lengths documentText fortyTwo accounts) :=
  [.mint ("Owner", "7"), .put firstAccount firstRow, .commit, .erase [("Owner", "7")]]

theorem rows_like_map_of_erasedOwner : ∃ final : Writing fortyTwo accounts,
    run (Writing.step fortyTwo_lawful lengths documentText) Writing.start erasedOwner = some final ∧
      Agrees lengths final (RowMap.run erasedOwner) := by
  have runs : (run (Writing.step fortyTwo_lawful lengths documentText) Writing.start
      erasedOwner).isSome = true := by decide
  obtain ⟨final, ran⟩ := Option.isSome_iff_exists.mp runs
  refine ⟨final, ran, rows_like_map fortyTwo fortyTwo_lawful fortyTwo_numerals optionalDocuments lengths
    documentText accounts erasedOwner ?_ final ran⟩
  intro act member
  simp only [erasedOwner, List.mem_cons, List.not_mem_nil, or_false] at member
  rcases member with rfl | rfl | rfl | rfl
  · trivial
  · exact firstRow_findable
  · trivial
  · trivial

end Hekla.Language
