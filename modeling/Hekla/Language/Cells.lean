import Hekla.Language.Values
import Hekla.Library.Numerals

/-!
# Cells that values are stored in

A fold's value is stored through its text, a projector's through its JSON, and
both are read back the way a cell is served.  The two ways differ at a document:
a projector keeps it whole, while a fold keeps a text without the quotes that
said it was one, and a flag as a digit.
-/

namespace Hekla.Language

open Hekla.Library Hekla.Host Hekla.Reads
open Hekla.Derived (FieldKind)

variable (spelling : Spelling) (language : Heklang)

/-- The text a stored form is kept as, if it is not kept as nothing. -/
def formText : Json → Option String
  | .null => none
  | .bool flag => some (if flag then "1" else "0")
  | .str text => some text
  | rest => some (spelling.jsonText rest)

/-- One value as the column stores it, or nothing for one it holds as `NULL`. -/
def storedText (kind : FieldKind) : Value language.Plain → Option String
  | .none => none
  | .some held => storedText kind held
  | other => formText spelling (storedForm spelling kind (language.written other))

/-- A fold's value as the cell an unsealed column holds. -/
def cellOf (kind : FieldKind) (value : Value language.Plain) : Except String Cell :=
  (storedText spelling language kind value).elim (.ok .null) (coerceValue spelling kind)

/-- A projector's value as the cell an unsealed column holds. -/
def putCell (kind : FieldKind) (value : Value language.Plain) : Except String Cell :=
  toSql spelling { kind } (storedForm spelling kind (language.written value))

/-- A stored cell back as a value of its type, which is what the next arm or
handler is given. -/
def readCell (kind : FieldKind) (ty : language.Ty) (cell : Cell) :
    Except String (Value language.Plain) :=
  language.fromJson (toHeklangJson (wireForm spelling kind (fromSql spelling { kind } cell))) ty

/-- A column takes a cell and gives the value back. -/
def Keeps (store : FieldKind → Value language.Plain → Except String Cell) (kind : FieldKind)
    (ty : language.Ty) (value : Value language.Plain) : Prop :=
  ∃ cell, store kind value = .ok cell ∧ (cell = .null → kind.isNullable = true) ∧
    readCell spelling language kind ty cell = .ok value

/-- A document a projector's column keeps: an instant has a spelling, and a
document that must be there is not the empty one. -/
structure RowStorable (kind : FieldKind) (json : Json) : Prop where
  renderable : Renderable spelling kind json
  present : kind.base = .json → json = .null → kind.isNullable = true

/-- A document a fold's column keeps: besides, it is no flag, and no text that is
a document itself. -/
structure FoldStorable (kind : FieldKind) (json : Json) : Prop extends
    RowStorable spelling kind json where
  noFlag : kind.base = .json → ∀ flag, json ≠ .bool flag
  noDocument : kind.base = .json → ∀ text document, json = .str text →
    spelling.jsonOf text = some document → document = .str text

variable {spelling language} {kind : FieldKind} {json : Json}

theorem toSql_unsealed {field : Reads.FieldMeta} (unsealed : field.sealedUnder = none) (json : Json) :
    toSql spelling field json = toSql spelling { kind := field.kind } json := by
  unfold toSql
  rw [unsealed]

theorem fromSql_unsealed {field : Reads.FieldMeta} (unsealed : field.sealedUnder = none) (cell : Cell) :
    fromSql spelling field cell = fromSql spelling { kind := field.kind } cell := by
  unfold fromSql
  rw [unsealed]

theorem fromSql_null (field : Reads.FieldMeta) : fromSql spelling field .null = .null := by
  unfold fromSql
  split <;> rfl

theorem storedForm_null : storedForm spelling kind .null = .null := by
  by_cases instant : kind.base = .timestamp
  · unfold storedForm columnForm
    rw [instant]
  · exact storedForm_of_ne instant

theorem wireForm_null : wireForm spelling kind .null = .null := by
  unfold wireForm
  split
  · next same => cases same
  · rfl

theorem columnForm_null : columnForm spelling kind .null = .null := by
  unfold columnForm
  split
  · next same => cases same
  · rfl

/-- The served form of a document is the document on the wire again. -/
theorem wireForm_columnForm (lawful : spelling.Lawful) (holds : Holds kind.base json)
    (renderable : Renderable spelling kind json) :
    wireForm spelling kind (columnForm spelling kind json) = json := by
  by_cases instant : kind.base = .timestamp
  · rw [instant] at holds
    cases holds with
    | timestamp micros =>
        obtain ⟨text, spelt⟩ := rfc3339_of_renderable instant renderable
        rw [columnForm_timestamp instant spelt]
        exact wireForm_timestamp instant (lawful.served_reads spelt)
  · rw [columnForm_of_ne instant, wireForm_of_ne instant]

/-! ## A projector's cell -/

/-- An instant with a spelling is stored in the long one, and read in the short. -/
theorem stored_instant (lawful : spelling.Lawful) (instant : kind.base = .timestamp) {micros : Int64}
    (renderable : Renderable spelling kind (.int micros.toInt)) :
    ∃ stored, storedForm spelling kind (.int micros.toInt) = .str stored ∧
      spelling.timestamp stored = some micros ∧
      coerceValue spelling kind stored = .ok (.text stored) ∧
      wireForm spelling kind (fromSql spelling { kind } (.text stored)) = .int micros.toInt := by
  obtain ⟨served, spelt⟩ := rfc3339_of_renderable instant renderable
  have ranged := lawful.same_range micros
  rw [spelt] at ranged
  obtain ⟨stored, written⟩ := Option.isSome_iff_exists.mp ranged.symm
  have reads := lawful.stored_reads written
  refine ⟨stored, storedForm_timestamp instant written, reads, ?_, ?_⟩
  · unfold coerceValue
    rw [instant]
    dsimp only
    rw [reads, Option.bind_some, written, Option.elim_some]
  · have shown : fromSql spelling { kind } (.text stored) = .str served := by
      unfold fromSql servedTimestamp
      dsimp only
      rw [instant]
      dsimp only
      rw [reads, Option.bind_some, spelt, Option.getD_some]
      rfl
    rw [shown]
    exact wireForm_timestamp instant (lawful.served_reads spelt)

/-- An instant without a spelling is passed on as its number. -/
theorem storedForm_unrenderable (lawful : spelling.Lawful) (instant : kind.base = .timestamp)
    {micros : Int64} (unrenderable : ¬ Renderable spelling kind (.int micros.toInt)) :
    storedForm spelling kind (.int micros.toInt) = .int micros.toInt := by
  have none_ : spelling.storedTimestamp micros = none := by
    by_contra some_
    have ranged := lawful.same_range micros
    rw [Option.isSome_iff_ne_none.mpr some_] at ranged
    refine unrenderable fun _ => ?_
    rw [asI64_int, Option.bind_some, ranged]
  unfold storedForm
  rw [instant]
  dsimp only
  rw [asI64_int, Option.bind_some, none_, Option.elim_none]

/-- What a projector's column keeps is read back as it was. -/
theorem putJson_reads (lawful : spelling.Lawful) (holds : Holds kind.base json)
    (documented : Documented spelling kind json) (storable : RowStorable spelling kind json) :
    ∃ cell, toSql spelling { kind } (storedForm spelling kind json) = .ok cell ∧
      (cell = .null → kind.isNullable = true) ∧
      wireForm spelling kind (fromSql spelling { kind } cell) = json := by
  by_cases instant : kind.base = .timestamp
  · rw [instant] at holds
    cases holds with
    | timestamp micros =>
        obtain ⟨stored, form, -, -, back⟩ := stored_instant lawful instant storable.renderable
        refine ⟨.text stored, ?_, nofun, back⟩
        rw [form]
        unfold toSql
        dsimp only
        rw [instant]
        rfl
  · rw [storedForm_of_ne instant]
    obtain ⟨cell, stored, back⟩ := fromSql_toSql holds instant documented
    refine ⟨cell, stored, ?_, by rw [wireForm_of_ne instant, back]⟩
    rintro rfl
    have empty : json = .null := by
      rw [← back]
      rfl
    rw [empty] at holds
    generalize base : kind.base = base at holds
    cases holds
    exact storable.present base empty

/-- A column that keeps a document is given one that it can keep. -/
theorem storable_of_put (lawful : spelling.Lawful) (holds : Holds kind.base json)
    (kept : ∃ cell, toSql spelling { kind } (storedForm spelling kind json) = .ok cell ∧
      (cell = .null → kind.isNullable = true)) : RowStorable spelling kind json := by
  obtain ⟨cell, stored, present⟩ := kept
  constructor
  · intro instant
    rw [instant] at holds
    cases holds with
    | timestamp micros =>
        by_contra unrendered
        have unrenderable : ¬ Renderable spelling kind (.int micros.toInt) :=
          fun renderable => unrendered (renderable instant)
        rw [storedForm_unrenderable lawful instant unrenderable] at stored
        unfold toSql at stored
        dsimp only at stored
        rw [instant] at stored
        cases stored
  · intro document empty
    rw [empty, storedForm_of_ne (by rw [document]; exact nofun)] at stored
    exact present (Except.ok.inj stored).symm

/-! ## A fold's cell -/

variable (spelling) in
/-- The cell a stored form is kept as, through its text. -/
def formCell (kind : FieldKind) (form : Json) : Except String Cell :=
  (formText spelling form).elim (.ok .null) (coerceValue spelling kind)

/-- What a fold's column keeps is read back as it was. -/
theorem formCell_reads (lawful : spelling.Lawful) (numerals : Numerals spelling)
    (holds : Holds kind.base json) (documented : Documented spelling kind json)
    (storable : FoldStorable spelling kind json) :
    ∃ cell, formCell spelling kind (storedForm spelling kind json) = .ok cell ∧
      (cell = .null → kind.isNullable = true) ∧
      wireForm spelling kind (fromSql spelling { kind } cell) = json := by
  by_cases instant : kind.base = .timestamp
  · rw [instant] at holds
    cases holds with
    | timestamp micros =>
        obtain ⟨stored, form, -, bound, back⟩ := stored_instant lawful instant storable.renderable
        rw [form]
        exact ⟨.text stored, bound, nofun, back⟩
  · rw [storedForm_of_ne instant]
    obtain ⟨⟨-, present⟩, noFlag, noDocument⟩ := storable
    unfold Documented at documented
    unfold formCell coerceValue fromSql
    simp only [wireForm_of_ne instant]
    generalize kind.base = base at holds instant documented present noFlag noDocument
    cases holds with
    | timestamp => exact absurd rfl instant
    | i64 value =>
        refine ⟨.integer value, ?_, nofun, rfl⟩
        change (parseI64 (spelling.jsonText (.int value.toInt))).elim _ _ = _
        rw [numerals.writes, parseI64_toString, Option.elim_some]
    | bool flag => cases flag <;> exact ⟨_, rfl, nofun, rfl⟩
    | json =>
        cases json with
        | null => exact ⟨.null, rfl, fun _ => present rfl rfl, rfl⟩
        | bool flag => exact absurd rfl (noFlag rfl flag)
        | str text =>
            refine ⟨.text text, rfl, nofun, ?_⟩
            change (spelling.jsonOf text).getD (.str text) = .str text
            cases read : spelling.jsonOf text with
            | none => rfl
            | some document => exact noDocument rfl text document rfl read
        | _ =>
            refine ⟨_, rfl, nofun, ?_⟩
            change (spelling.jsonOf (spelling.jsonText _)).getD _ = _
            rw [documented rfl, Option.getD_some]
    | _ => exact ⟨_, rfl, nofun, rfl⟩

/-- A fold's column that keeps a document has a spelling for its instant. -/
theorem renderable_of_formCell (lawful : spelling.Lawful) (numerals : Numerals spelling)
    (holds : Holds kind.base json) {cell : Cell}
    (stored : formCell spelling kind (storedForm spelling kind json) = .ok cell) :
    Renderable spelling kind json := by
  intro instant
  rw [instant] at holds
  cases holds with
  | timestamp micros =>
      by_contra unrendered
      have unrenderable : ¬ Renderable spelling kind (.int micros.toInt) :=
        fun renderable => unrendered (renderable instant)
      rw [storedForm_unrenderable lawful instant unrenderable] at stored
      change coerceValue spelling kind (spelling.jsonText (.int micros.toInt)) = .ok cell at stored
      unfold coerceValue at stored
      rw [instant] at stored
      dsimp only at stored
      rw [numerals.writes, numerals.instant] at stored
      cases stored

theorem coerceValue_document (document : kind.base = .json) (text : String) :
    coerceValue spelling kind text = .ok (.text text) := by
  unfold coerceValue
  rw [document]

theorem fromSql_document (document : kind.base = .json) (text : String) :
    fromSql spelling { kind } (.text text) = (spelling.jsonOf text).getD (.str text) := by
  unfold fromSql
  dsimp only
  rw [document]
  rfl

/-- A flag is kept as a digit, and read as a number. -/
theorem document_of_flag (numerals : Numerals spelling) (document : kind.base = .json) {flag : Bool}
    {cell : Cell} (stored : formCell spelling kind (.bool flag) = .ok cell) :
    ∃ number, fromSql spelling { kind } cell = .int number := by
  change coerceValue spelling kind (if flag then "1" else "0") = .ok cell at stored
  rw [coerceValue_document document] at stored
  cases stored
  rw [fromSql_document document]
  cases flag with
  | true =>
      have one : spelling.jsonOf "1" = some (.int 1) := numerals.reads 1
      exact ⟨1, by rw [if_pos rfl, one, Option.getD_some]⟩
  | false =>
      have zero : spelling.jsonOf "0" = some (.int 0) := numerals.reads 0
      exact ⟨0, by rw [if_neg Bool.false_ne_true, zero, Option.getD_some]⟩

/-- A text is kept without its quotes, and read as what it then spells. -/
theorem document_of_text (document : kind.base = .json) {text : String} {cell : Cell} {other : Json}
    (stored : formCell spelling kind (.str text) = .ok cell)
    (parsed : spelling.jsonOf text = some other) : fromSql spelling { kind } cell = other := by
  change coerceValue spelling kind text = .ok cell at stored
  rw [coerceValue_document document] at stored
  cases stored
  rw [fromSql_document document, parsed, Option.getD_some]

/-! ## Values -/

variable {ty : language.Ty} {value : Value language.Plain}

/-- A value that is there is stored by its JSON. -/
theorem cellOf_of_fits (fits : Fits language kind value) (present : value ≠ .none) :
    cellOf spelling language kind value =
      formCell spelling kind (storedForm spelling kind (language.written value)) := by
  cases fits with
  | plain => rfl
  | some => rfl
  | none => exact absurd rfl present

theorem holds_of_fits (fits : Fits language kind value) (present : value ≠ .none) :
    Holds kind.base (language.written value) := by
  cases fits with
  | plain held _ holds => exact holds
  | some held _ holds => exact holds
  | none => exact absurd rfl present

/-- An absent value is the empty cell, whatever the kind. -/
theorem keeps_none (nullable : kind.isNullable = true)
    (reads : language.fromJson (toHeklangJson (language.written .none)) ty = .ok .none) :
    Keeps spelling language (putCell spelling language) kind ty .none ∧
      Keeps spelling language (cellOf spelling language) kind ty .none := by
  have shown : wireForm spelling kind (fromSql spelling { kind } .null) = .null := wireForm_null
  constructor
  · refine ⟨.null, ?_, fun _ => nullable, ?_⟩
    · change toSql spelling { kind } (storedForm spelling kind .null) = .ok .null
      rw [storedForm_null]
      rfl
    · unfold readCell
      rw [shown]
      exact reads
  · refine ⟨.null, rfl, fun _ => nullable, ?_⟩
    unfold readCell
    rw [shown]
    exact reads

/-- A projector's column gives a value back exactly when it is absent, or its
instant has a spelling and its document is not the empty one in a column that
must hold something. -/
theorem put_keeps_iff (lawful : spelling.Lawful) (fits : Fits language kind value)
    (converts : Converts language kind ty value)
    (documented : Documented spelling kind (language.written value)) :
    Keeps spelling language (putCell spelling language) kind ty value ↔
      value = .none ∨ RowStorable spelling kind (language.written value) := by
  by_cases absent : value = .none
  · subst absent
    cases fits with
    | none nullable => exact ⟨fun _ => .inl rfl, fun _ => (keeps_none nullable converts.reads).1⟩
  · have holds := holds_of_fits fits absent
    constructor
    · rintro ⟨cell, stored, present, -⟩
      exact .inr (storable_of_put lawful holds ⟨cell, stored, present⟩)
    · rintro (none | storable)
      · exact absurd none absent
      · obtain ⟨cell, stored, present, back⟩ := putJson_reads lawful holds documented storable
        refine ⟨cell, stored, present, ?_⟩
        unfold readCell
        rw [back]
        exact converts.reads

/-- A fold's column gives a value back exactly when, besides, its document is
neither a flag nor a text that is a document itself. -/
theorem cellOf_keeps_iff (lawful : spelling.Lawful) (numerals : Numerals spelling)
    (fits : Fits language kind value) (converts : Converts language kind ty value)
    (documented : Documented spelling kind (language.written value)) :
    Keeps spelling language (cellOf spelling language) kind ty value ↔
      value = .none ∨ FoldStorable spelling kind (language.written value) := by
  by_cases absent : value = .none
  · subst absent
    cases fits with
    | none nullable => exact ⟨fun _ => .inl rfl, fun _ => (keeps_none nullable converts.reads).2⟩
  · have holds := holds_of_fits fits absent
    constructor
    · rintro ⟨cell, stored, present, back⟩
      rw [cellOf_of_fits fits absent] at stored
      -- a leaf of a document is read from itself only
      have same (document : kind.base = .json) (leaf : Leaf (language.written value)) :
          fromSql spelling { kind } cell = language.written value := by
        unfold readCell at back
        rw [wireForm_of_ne (by rw [document]; exact nofun)] at back
        exact converts.only document leaf _ back
      have form (document : kind.base = .json) :
          storedForm spelling kind (language.written value) = language.written value :=
        storedForm_of_ne (by rw [document]; exact nofun)
      refine .inr ⟨⟨renderable_of_formCell lawful numerals holds stored, ?_⟩, ?_, ?_⟩
      · intro document empty
        rw [form document, empty] at stored
        exact present (Except.ok.inj stored).symm
      · intro document flag isFlag
        have read := same document (by rw [isFlag]; trivial)
        rw [form document, isFlag] at stored
        obtain ⟨number, shown⟩ := document_of_flag numerals document stored
        rw [shown, isFlag] at read
        cases read
      · intro document text other isText parsed
        have read := same document (by rw [isText]; trivial)
        rw [form document, isText] at stored
        rw [document_of_text document stored parsed, isText] at read
        exact read
    · rintro (none | storable)
      · exact absurd none absent
      · obtain ⟨cell, stored, present, back⟩ :=
          formCell_reads lawful numerals holds documented storable
        refine ⟨cell, by rw [cellOf_of_fits fits absent, stored], present, ?_⟩
        unfold readCell
        rw [back]
        exact converts.reads

/-- What is stored is read back as it was, in a projector's column and in a
fold's, exactly under what each of them can keep. -/
theorem stored_values_read_back (spelling : Spelling) (lawful : spelling.Lawful)
    (numerals : Numerals spelling) (language : Heklang) (kind : FieldKind) (ty : language.Ty)
    (value : Value language.Plain) (fits : Fits language kind value)
    (converts : Converts language kind ty value)
    (documented : Documented spelling kind (language.written value)) :
    (Keeps spelling language (putCell spelling language) kind ty value ↔
      value = .none ∨ RowStorable spelling kind (language.written value)) ∧
    (Keeps spelling language (cellOf spelling language) kind ty value ↔
      value = .none ∨ FoldStorable spelling kind (language.written value)) :=
  ⟨put_keeps_iff lawful fits converts documented,
    cellOf_keeps_iff lawful numerals fits converts documented⟩

/-- The spellings of one instant, of numbers and of one text. -/
def fortyTwo : Spelling where
  timestamp := newYear.timestamp
  rfc3339 := newYear.rfc3339
  storedTimestamp := newYear.storedTimestamp
  jsonText
    | .int number => toString number
    | .str text => "\"" ++ text ++ "\""
    | _ => "null"
  jsonOf text :=
    if text = "\"42\"" then some (.str "42") else if text = "null" then some .null else parseNumber text

theorem fortyTwo_lawful : fortyTwo.Lawful where
  stored_reads := newYear_lawful.stored_reads
  served_reads := newYear_lawful.served_reads
  same_range := newYear_lawful.same_range

theorem fortyTwo_numerals : Numerals fortyTwo where
  writes _ := rfl
  reads number := by
    have quote : toString number ≠ "\"42\"" := by
      intro same
      refine notMem_toString '"' (by decide) (by decide) number ?_
      rw [same]
      decide
    have word : toString number ≠ "null" := by
      intro same
      refine notMem_toString 'n' (by decide) (by decide) number ?_
      rw [same]
      decide
    change (if toString number = _ then _ else if toString number = _ then _ else _) = _
    rw [if_neg quote, if_neg word, parseNumber_toString]
  instant number := by
    have letter (text : String) (member : 'T' ∈ text.toList) : toString number ≠ text := by
      rintro rfl
      exact notMem_toString 'T' (by decide) (by decide) number member
    exact if_neg (not_or.mpr ⟨letter _ (by decide), letter _ (by decide)⟩)

/-- A language of documents and instants: its values are its JSON. -/
def documents : Heklang where
  Plain := HeklangJson
  Ty := Unit
  json held := held
  fromJson json _ := .ok (.plain json)
  fromSealed text _ := .ok (.plain (.str text))

/-- A language of documents, absent where its type says that they may be. -/
def optionalDocuments : Heklang where
  Plain := HeklangJson
  Ty := Bool
  json held := held
  fromJson json optional :=
    match optional, json with
    | true, .null => .ok .none
    | true, held => .ok (.some (.plain held))
    | false, held => .ok (.plain held)
  fromSealed text _ := .ok (.plain (.str text))

/-- A leaf crosses to the language as no other document does. -/
theorem leaf_of_toHeklangJson {json other : Json} (leaf : Leaf json)
    (same : toHeklangJson other = toHeklangJson json) : other = json := by
  cases json with
  | null => cases other <;> first | rfl | cases same
  | bool flag => cases other <;> cases same; rfl
  | str text => cases other <;> cases same; rfl
  | _ => cases leaf

theorem documents_convert (json : Json) (kind : FieldKind) (proper : parsed json = true) :
    Converts documents kind () (.plain (toHeklangJson json)) := by
  have written : documents.written (.plain (toHeklangJson json)) = json :=
    from_toHeklangJson json proper
  constructor
  · rw [written]
    rfl
  · intro _ leaf other read
    rw [written] at leaf ⊢
    exact leaf_of_toHeklangJson leaf (Value.plain.inj (Except.ok.inj read))

/-- A text that is a number without its quotes does not come back from a fold's column. -/
theorem bare_text_misread : ¬ ∀ (spelling : Spelling), spelling.Lawful → Numerals spelling →
    ∀ (language : Heklang) (kind : FieldKind) (ty : language.Ty) (value : Value language.Plain),
    Fits language kind value → Converts language kind ty value →
    Documented spelling kind (language.written value) →
    Keeps spelling language (putCell spelling language) kind ty value ∧
      Keeps spelling language (cellOf spelling language) kind ty value := by
  intro claimed
  obtain ⟨cell, stored, -, back⟩ := (claimed fortyTwo fortyTwo_lawful fortyTwo_numerals documents
    .json () (.plain (toHeklangJson (.str "42"))) (.plain _ rfl (.json _))
    (documents_convert (.str "42") .json rfl) (fun _ => by decide)).2
  cases stored
  have read : readCell fortyTwo documents .json () (.text "42") =
      .ok (.plain (toHeklangJson (.int 42))) := rfl
  rw [read] at back
  cases Value.plain.inj (Except.ok.inj back)

/-- The new year is kept by either column. -/
theorem newYear_kept :
    Keeps fortyTwo documents (putCell fortyTwo documents) .timestamp ()
      (.plain (toHeklangJson (.int 1704067200500000))) ∧
    Keeps fortyTwo documents (cellOf fortyTwo documents) .timestamp ()
      (.plain (toHeklangJson (.int 1704067200500000))) := by
  have kept := stored_values_read_back fortyTwo fortyTwo_lawful fortyTwo_numerals documents
    .timestamp () (.plain (toHeklangJson (.int 1704067200500000)))
    (.plain _ rfl (.timestamp 1704067200500000)) (documents_convert _ .timestamp rfl) nofun
  have storable : RowStorable fortyTwo .timestamp
      (documents.written (.plain (toHeklangJson (.int 1704067200500000)))) :=
    ⟨fun _ => by decide, nofun⟩
  exact ⟨kept.1.mpr (.inr storable), kept.2.mpr (.inr ⟨storable, nofun, nofun⟩)⟩

end Hekla.Language
