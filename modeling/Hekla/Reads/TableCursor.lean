import Hekla.Reads.TableScan

/-!
# What a cursor is read back as

A cursor is made of stored texts and read back through the check a filter takes.
A text that passes it binds the cell it came from.  All of them pass but those of
two kinds: a UUID has to parse, and a variant has to be one that is declared now.
-/

namespace Hekla.Reads.Tables

open Hekla.Library Hekla.Host
open Hekla.Derived (FieldKind oneRow)

variable {spelling : Spelling} {isUuid : String → Bool}

/-! ## Values -/

/-- Whether the check of a filter's value lets a stored text through.  An option
of an option is read as the inner one. -/
def Passes (spelling : Spelling) (isUuid : String → Bool) (kind : FieldKind) (text : String) : Prop :=
  match kind.base with
  | .uuid => isUuid text = true
  | .oneOf variants => text ∈ variants
  | .optional inner => ∃ cell, coerceValue spelling (.optional inner) text = .ok cell
  | _ => True

theorem coerceValue_timestamp {kind : FieldKind} (base : kind.base = .timestamp) (text : String) :
    coerceValue spelling kind text =
      ((spelling.timestamp text).bind spelling.storedTimestamp).elim
        (.error "expected an RFC 3339 timestamp with an offset") fun text => .ok (.text text) := by
  unfold coerceValue
  rw [base]

/-- The served form of an instant, as a filter's value is spelled. -/
theorem asStr_columnForm {kind : FieldKind} (base : kind.base = .timestamp) (micros : Int64) :
    (columnForm spelling kind (.int micros.toInt)).asStr = spelling.rfc3339 micros := by
  unfold columnForm
  rw [base]
  dsimp only
  rw [asI64_int, Option.bind_some]
  cases spelling.rfc3339 micros <;> rfl

theorem boundMeta_timestamp {field : FieldMeta} (base : field.kind.base = .timestamp)
    (named value : String) : boundMeta spelling isUuid field named value =
      ((spelling.timestamp value).bind spelling.rfc3339).elim
        (.error (wrong named "an RFC 3339 timestamp with an offset")) .ok := by
  unfold boundMeta
  rw [base]
  dsimp only
  congr 2
  funext micros
  exact asStr_columnForm base micros

/-- The spelling an instant is served in is bound as the one it is stored in. -/
theorem coerce_served (lawful : spelling.Lawful) {kind : FieldKind} (base : kind.base = .timestamp)
    {micros : Int64} {served : String} (shown : spelling.rfc3339 micros = some served) :
    ∃ stored, spelling.storedTimestamp micros = some stored ∧
      coerceValue spelling kind served = .ok (.text stored) := by
  have range := lawful.same_range micros
  rw [shown] at range
  obtain ⟨stored, spelt⟩ := Option.isSome_iff_exists.mp range.symm
  refine ⟨stored, spelt, ?_⟩
  rw [coerceValue_timestamp base, lawful.served_reads shown, Option.bind_some, spelt]
  rfl

/-- A value that is read for its inner kind can be read for the whole one. -/
theorem coerce_of_base {kind : FieldKind} {text : String} {cell : Cell}
    (read : coerceValue spelling kind.base text = .ok cell) :
    ∃ cell, coerceValue spelling kind text = .ok cell := by
  cases kind with
  | optional inner =>
      cases inner with
      | optional inner => exact ⟨.text text, rfl⟩
      | _ => exact ⟨cell, read⟩
  | _ => exact ⟨cell, read⟩

/-- A value that passed its check can be bound. -/
theorem coerce_of_boundMeta (lawful : spelling.Lawful) {field : FieldMeta} {named value text : String}
    (passed : boundMeta spelling isUuid field named value = .ok text) :
    ∃ cell, coerceValue spelling field.kind text = .ok cell := by
  cases base : field.kind.base with
  | timestamp =>
      rw [boundMeta_timestamp base] at passed
      cases read : (spelling.timestamp value).bind spelling.rfc3339 with
      | none =>
          rw [read] at passed
          cases passed
      | some served =>
          rw [read] at passed
          cases passed
          obtain ⟨micros, _, shown⟩ := Option.bind_eq_some_iff.mp read
          obtain ⟨stored, _, bound⟩ := coerce_served lawful base shown
          exact ⟨_, bound⟩
  | uuid =>
      unfold coerceValue
      rw [base]
      exact ⟨_, rfl⟩
  | oneOf variants =>
      unfold coerceValue
      rw [base]
      exact ⟨_, rfl⟩
  | _ =>
      unfold boundMeta at passed
      rw [base] at passed
      dsimp only at passed
      split at passed
      · next cell coerced =>
          cases passed
          rw [← base] at coerced
          exact coerce_of_base coerced
      · cases passed

/-- A kind that is not twice optional reads a text as its inner kind does. -/
theorem coerce_base {kind : FieldKind} (flat : ∀ inner, kind.base ≠ .optional inner) (text : String) :
    coerceValue spelling kind.base text = coerceValue spelling kind text := by
  cases kind with
  | optional inner =>
      cases inner with
      | optional inner => exact absurd rfl (flat inner)
      | _ => rfl
  | _ => rfl

theorem boundMeta_checked {field : FieldMeta} {text : String} {cell : Cell}
    (unnamed : field.kind.base ≠ .uuid) (untimed : field.kind.base ≠ .timestamp)
    (unlisted : ∀ variants, field.kind.base ≠ .oneOf variants)
    (read : coerceValue spelling field.kind.base text = .ok cell) (named : String) :
    boundMeta spelling isUuid field named text = .ok text := by
  unfold boundMeta
  split
  · next kind => exact absurd kind unnamed
  · next kind => exact absurd kind untimed
  · next variants kind => exact absurd kind (unlisted variants)
  · rw [read]

/-- The stored text of a cell passes its check exactly where its kind lets it, and
what the check gives back binds the cell. -/
theorem boundMeta_keyText (lawful : spelling.Lawful) {field : FieldMeta} {cell : Cell}
    (held : Held spelling field.kind cell) (named : String) :
    (Passes spelling isUuid field.kind (keyText cell) →
      ∃ text, boundMeta spelling isUuid field named (keyText cell) = .ok text ∧
        coerceValue spelling field.kind text = .ok cell) ∧
    (¬ Passes spelling isUuid field.kind (keyText cell) →
      ∃ why, boundMeta spelling isUuid field named (keyText cell) = .error why) := by
  have back := held.keyText lawful
  cases base : field.kind.base with
  | uuid =>
      unfold boundMeta Passes
      rw [base]
      dsimp only
      constructor
      · intro parsed
        exact ⟨_, if_pos parsed, back⟩
      · intro malformed
        exact ⟨_, if_neg malformed⟩
  | oneOf variants =>
      unfold boundMeta Passes
      rw [base]
      dsimp only
      constructor
      · intro declared
        exact ⟨_, if_pos (List.contains_iff_mem.mpr declared), back⟩
      · intro removed
        exact ⟨_, if_neg fun found => removed (List.contains_iff_mem.mp found)⟩
  | timestamp =>
      rw [coerceValue_timestamp base] at back
      cases read : (spelling.timestamp (keyText cell)).bind spelling.storedTimestamp with
      | none =>
          rw [read] at back
          cases back
      | some stored =>
          rw [read] at back
          obtain rfl := Except.ok.inj back
          obtain ⟨micros, instant, spelt⟩ := Option.bind_eq_some_iff.mp read
          have range := lawful.same_range micros
          rw [spelt] at range
          obtain ⟨served, shown⟩ := Option.isSome_iff_exists.mp range
          obtain ⟨again, same, bound⟩ := coerce_served lawful base shown
          obtain rfl := Option.some.inj (spelt.symm.trans same)
          have passed : boundMeta spelling isUuid field named (keyText (.text stored)) = .ok served := by
            rw [boundMeta_timestamp base, instant, Option.bind_some, shown]
            rfl
          refine ⟨fun _ => ⟨served, passed, bound⟩, fun barred => absurd ?_ barred⟩
          unfold Passes
          rw [base]
          trivial
  | optional inner =>
      unfold Passes
      rw [base]
      dsimp only
      constructor
      · rintro ⟨other, read⟩
        rw [← base] at read
        exact ⟨_, boundMeta_checked (by simp [base]) (by simp [base]) (by simp [base]) read named, back⟩
      · intro unread
        unfold boundMeta
        rw [base]
        dsimp only
        cases read : coerceValue spelling (.optional inner) (keyText cell) with
        | ok other => exact absurd ⟨other, read⟩ unread
        | error why => exact ⟨_, rfl⟩
  | _ =>
      have read := (coerce_base (by simp [base]) _).trans back
      refine ⟨fun _ => ⟨_, boundMeta_checked (by simp [base]) (by simp [base]) (by simp [base]) read
        named, back⟩, fun barred => absurd ?_ barred⟩
      unfold Passes
      rw [base]
      trivial

/-! ## Keys -/

/-- What a cursor is made of at a row: its key and its ordered column, as texts. -/
def markAfter (table : TableDef) (order : Option Order) (row : Row) : After where
  value := order.map fun order => keyText (row order.column)
  key := table.key.map fun part => keyText (row part.1)

/-- The cursor of a row. -/
def markOf (codec : Codec Cursor) (table : TableDef) (order : Option Order) (row : Row) : String :=
  encodeCursor codec table.name order (markAfter table order row)

/-- Whether every part of a row's key passes the check its own text is read with. -/
def Accepted (spelling : Spelling) (isUuid : String → Bool) (table : TableDef) (row : Row) : Prop :=
  ∀ part ∈ table.key, Passes spelling isUuid part.2.kind (keyText (row part.1))

variable {table : TableDef} {row : Row}

theorem part_of_mem (formed : table.Formed spelling) {part : String × FieldMeta}
    (member : part ∈ table.key) : table.part part.1 = some part.2 := by
  have parts : (table.key.map Prod.fst).Nodup := by
    have keys := (List.nodup_append.mp formed.distinct).1
    unfold TableDef.keyColumns at keys
    rwa [if_neg fun empty => List.ne_nil_of_mem member (List.isEmpty_iff.mp empty)] at keys
  cases found : table.part part.1 with
  | none =>
      unfold TableDef.part at found
      have absent := List.find?_eq_none.mp (Option.map_eq_none_iff.mp found) part member
      simp at absent
  | some field =>
      have same := List.inj_on_of_nodup_map parts (TableDef.part_mem found) member rfl
      rw [← same]

theorem mapM_zip_ok {ι : Type u} {τ : Type v} {β ε : Type w} {act : ι × τ → Except ε β}
    {made : ι → β} {items : List ι} {texts : List τ}
    (each : List.Forall₂ (fun item text => act (item, text) = .ok (made item)) items texts) :
    (items.zip texts).mapM act = .ok (items.map made) := by
  induction each with
  | nil => rfl
  | cons acted _ ih =>
      rw [List.zip_cons_cons, List.mapM_cons, acted, ih]
      rfl

theorem cursorKey_marked (table : TableDef) (text : String × FieldMeta → String) :
    cursorKey spelling isUuid table (table.key.map text) =
      table.key.mapM fun part =>
        (bound spelling isUuid table part.1 part.1 (text part)).mapError fun _ => bad := by
  unfold cursorKey
  rw [← List.map_prod_left_eq_zip, List.mapM_map]
  rfl

/-- The key of a row is read back where each part passes, as texts that bind it. -/
theorem cursorKey_ok (lawful : spelling.Lawful) (formed : table.Formed spelling)
    (holds : table.Holds spelling row) (accepted : Accepted spelling isUuid table row) :
    ∃ texts, cursorKey spelling isUuid table (table.key.map fun part => keyText (row part.1)) =
        .ok texts ∧
      keyPlaces spelling table texts = .ok (table.key.map fun part => (part.1, row part.1)) := by
  have each : ∀ part ∈ table.key, ∃ text,
      bound spelling isUuid table part.1 part.1 (keyText (row part.1)) = .ok text ∧
        coerceValue spelling part.2.kind text = .ok (row part.1) := by
    intro part member
    unfold bound
    rw [part_of_mem formed member]
    exact (boundMeta_keyText lawful (holds.keyed part member) part.1).1 (accepted part member)
  rw [cursorKey_marked]
  obtain ⟨texts, read⟩ : ∃ texts, table.key.mapM (fun part =>
      (bound spelling isUuid table part.1 part.1 (keyText (row part.1))).mapError fun _ => bad) =
      .ok texts := by
    refine exists_mapM_ok ?_
    intro part member
    obtain ⟨text, passed, _⟩ := each part member
    exact ⟨text, mapError_ok.mpr passed⟩
  refine ⟨texts, read, mapM_zip_ok ?_⟩
  refine (List.forall₂_and_left _ _ |>.mpr ⟨each, forall₂_of_mapM_ok read⟩).imp ?_
  rintro part text ⟨⟨other, passed, coerced⟩, given⟩
  obtain rfl := Except.ok.inj (passed.symm.trans (mapError_ok.mp given))
  rw [coerced]
  rfl

/-- Nor is it read back where some part does not. -/
theorem accepted_of_cursorKey (lawful : spelling.Lawful) (formed : table.Formed spelling)
    (holds : table.Holds spelling row) {texts : List String}
    (read : cursorKey spelling isUuid table (table.key.map fun part => keyText (row part.1)) =
      .ok texts) : Accepted spelling isUuid table row := by
  rw [cursorKey_marked] at read
  intro part member
  obtain ⟨text, passed⟩ := ok_of_mapM_ok read member
  rw [mapError_ok] at passed
  unfold bound at passed
  rw [part_of_mem formed member] at passed
  by_contra barred
  obtain ⟨why, failed⟩ := (boundMeta_keyText lawful (holds.keyed part member) part.1).2 barred
  dsimp only at passed
  rw [failed] at passed
  cases passed

/-! ## Places -/

/-- An ordering by a column that a table has, which is not sealed. -/
def Orders (table : TableDef) (order : Option Order) : Prop :=
  ∀ by_, order = some by_ → ∃ column, table.column by_.column = some column ∧
    column.field.sealedUnder = none

/-- Whether a row has a value in an ordering. -/
def Present (order : Option Order) (row : Row) : Prop := ∀ by_, order = some by_ → row by_.column ≠ .null

variable {order : Option Order}

theorem held_of_present (holds : table.Holds spelling row) {by_ : Order} {column : ColumnDef}
    (named : table.column by_.column = some column) (unsealed : column.field.sealedUnder = none)
    (present : row by_.column ≠ .null) : Held spelling column.field.kind (row by_.column) := by
  obtain ⟨known, same⟩ := TableDef.column_mem named
  rw [← same] at present ⊢
  exact (holds.celled column known unsealed).resolve_left present

theorem cursorValue_ok (lawful : spelling.Lawful) (holds : table.Holds spelling row)
    (orders : Orders table order) (present : Present order row) :
    cursorValue spelling table order (order.map fun by_ => keyText (row by_.column)) =
      .ok (order.map fun by_ => keyText (row by_.column)) := by
  cases order with
  | none => rfl
  | some by_ =>
      obtain ⟨column, named, unsealed⟩ := orders by_ rfl
      have back := (held_of_present holds named unsealed (present by_ rfl)).keyText lawful
      unfold cursorValue
      rw [Option.map_some]
      dsimp only
      rw [named]
      dsimp only
      rw [back]
      rfl

theorem sortBinds_ok (lawful : spelling.Lawful) (holds : table.Holds spelling row)
    (orders : Orders table order) (present : Present order row) :
    sortBinds spelling table order (order.map fun by_ => keyText (row by_.column)) =
      .ok (order.toList.map fun by_ => (by_.column, row by_.column)) := by
  cases order with
  | none => rfl
  | some by_ =>
      obtain ⟨column, named, unsealed⟩ := orders by_ rfl
      have back := (held_of_present holds named unsealed (present by_ rfl)).keyText lawful
      unfold sortBinds columnKind
      rw [Option.map_some]
      dsimp only
      rw [named]
      refine bind_ok.mpr ⟨_, rfl, ?_⟩
      rw [back]
      rfl

variable {codec : Codec Cursor} {sel : Selection}

theorem decodeCursor_markOf (written : codec.Lawful) (some_ : sel.main.key ≠ []) :
    decodeCursor spelling isUuid codec sel (markOf codec sel.main order row) order =
      (do
        let key ← cursorKey spelling isUuid sel.main (sel.main.key.map fun part => keyText (row part.1))
        let value ← cursorValue spelling sel.main order (order.map fun by_ => keyText (row by_.column))
        .ok ⟨value, key⟩) := by
  unfold decodeCursor markOf encodeCursor
  rw [if_neg fun empty => some_ (List.isEmpty_iff.mp empty), Codec.decode_encode written]
  dsimp only [markAfter]
  rw [if_neg (by simp), if_neg (by simp)]

/-- What an accepted cursor of a row resumes after is the row's place. -/
theorem decodeCursor_ok (lawful : spelling.Lawful) (written : codec.Lawful)
    (formed : sel.main.Formed spelling) (some_ : sel.main.key ≠ [])
    (holds : sel.main.Holds spelling row) (orders : Orders sel.main order)
    (present : Present order row) (accepted : Accepted spelling isUuid sel.main row) :
    ∃ after, decodeCursor spelling isUuid codec sel (markOf codec sel.main order row) order =
        .ok after ∧
      afterCondition spelling sel.main order (some after) =
        .ok [Statement.after (orderColumns sel.main order) (descends order)
          (placeOf (orderColumns sel.main order) row)] := by
  obtain ⟨texts, read, bound⟩ := cursorKey_ok lawful formed holds accepted
  have value := cursorValue_ok lawful holds orders present
  refine ⟨⟨order.map fun by_ => keyText (row by_.column), texts⟩, ?_, ?_⟩
  · rw [decodeCursor_markOf written some_]
    exact bind_ok.mpr ⟨_, read, bind_ok.mpr ⟨_, value, rfl⟩⟩
  · refine bind_ok.mpr ⟨_, sortBinds_ok lawful holds orders present,
      bind_ok.mpr ⟨_, bound, ?_⟩⟩
    have columns : orderColumns sel.main order =
        order.toList.map Order.column ++ sel.main.key.map Prod.fst := by
      unfold orderColumns TableDef.keyColumns
      rw [if_neg fun empty => some_ (List.isEmpty_iff.mp empty)]
    rw [columns]
    simp [placeOf, Function.comp_def]

theorem accepted_of_decodeCursor (lawful : spelling.Lawful) (written : codec.Lawful)
    (formed : sel.main.Formed spelling) (some_ : sel.main.key ≠ [])
    (holds : sel.main.Holds spelling row) {after : After}
    (read : decodeCursor spelling isUuid codec sel (markOf codec sel.main order row) order =
      .ok after) : Accepted spelling isUuid sel.main row := by
  rw [decodeCursor_markOf written some_] at read
  obtain ⟨texts, keyed, _⟩ := bind_ok.mp read
  exact accepted_of_cursorKey lawful formed holds keyed

end Hekla.Reads.Tables
