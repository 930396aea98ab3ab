import Hekla.Language.Cells
import Hekla.Reads.TableScan

/-!
# The seed of a column

A fold's seed is written into the schema as a literal, and the database makes
the cell of a row that is new from it.  What a literal stands for is read here as
the database reads it; a column of numbers takes a number, and any other column
its text.
-/

namespace Hekla.Language

open Hekla.Library Hekla.Host Hekla.Reads
open Hekla.Derived (FieldKind)
open Hekla.Reads.Tables (SealedCell rendered)

/-! ## Literals -/

/-- What a literal stands for. -/
inductive Literal where
  | null
  | integer (number : Int64)
  | real (numeral : String)
  | text (text : String)

/-- A quote stands twice inside quotes. -/
def doubled (char : Char) : List Char := if char = '\'' then ['\'', '\''] else [char]

def sqlString (text : String) : String :=
  String.ofList ('\'' :: (text.toList.flatMap doubled ++ ['\'']))

/-- What stands between the quotes of a literal, read from after the first. -/
def unquoted : List Char → List Char
  | '\'' :: '\'' :: rest => '\'' :: unquoted rest
  | '\'' :: _ => []
  | char :: rest => char :: unquoted rest
  | [] => []

/-- The database's reading of a literal. -/
def literalOf (sql : String) : Literal :=
  match sql.toList with
  | '\'' :: rest => .text (String.ofList (unquoted rest))
  | _ => if sql = "NULL" then .null else (parseI64 sql).elim (.real sql) .integer

theorem unquoted_doubled (text : List Char) : unquoted (text.flatMap doubled ++ ['\'']) = text := by
  induction text with
  | nil => rfl
  | cons char rest ih =>
      rw [List.flatMap_cons, List.append_assoc]
      by_cases quote : char = '\''
      · subst quote
        change '\'' :: unquoted (rest.flatMap doubled ++ ['\'']) = _
        rw [ih]
      · have alone : doubled char = [char] := if_neg quote
        rw [alone]
        change unquoted (char :: (rest.flatMap doubled ++ ['\''])) = _
        rw [unquoted, ih]
        · exact fun _ same => absurd same quote
        · exact quote

/-- A quoted text is read as it was. -/
theorem literalOf_sqlString (text : String) : literalOf (sqlString text) = .text text := by
  unfold literalOf sqlString
  rw [String.toList_ofList]
  change Literal.text (String.ofList (unquoted (text.toList.flatMap doubled ++ ['\'']))) = _
  rw [unquoted_doubled, String.ofList_toList]

/-- A numeral is read as its number. -/
theorem literalOf_toString (number : Int64) :
    literalOf (toString number.toInt) = .integer number := by
  unfold literalOf
  split
  · next rest quoted =>
      refine absurd ?_ (notMem_toString '\'' (by decide) (by decide) number.toInt)
      rw [quoted]
      exact List.mem_cons_self
  · have named : toString number.toInt ≠ "NULL" := by
      intro same
      refine notMem_toString 'N' (by decide) (by decide) number.toInt ?_
      rw [same]
      decide
    rw [if_neg named, parseI64_toString]
    rfl

/-- How the database spells and reads a number that is no 64-bit integer. -/
structure Sqlite where
  /-- The text that a column of texts keeps a numeral as. -/
  text : String → String
  /-- The number that a numeral is selected as. -/
  number : String → Json

variable (spelling : Spelling) (sqlite : Sqlite)

/-- The cell that a column keeps a literal as. -/
def Literal.cell (sqlite : Sqlite) (kind : FieldKind) : Literal → Cell
  | .null => .null
  | .text held => .text held
  | .real numeral => .text (sqlite.text numeral)
  | .integer number =>
      match kind.base with
      | .bool | .i64 => .integer number
      | _ => .text (toString number.toInt)

/-- A literal as it is served where it stands for a cell. -/
def Literal.shown (spelling : Spelling) (sqlite : Sqlite) (field : Reads.FieldMeta) : Literal → Json
  | .null => fromSql spelling field .null
  | .text held => fromSql spelling field (.text held)
  | .real numeral => sqlite.number numeral
  | .integer number => fromSql spelling field (.integer number)

/-! ## Seeds -/

/-- The literal of a seed in its stored form. -/
def formLiteral : Json → String
  | .null => "NULL"
  | .bool flag => if flag then "1" else "0"
  | .int number => toString number
  | .num text => text
  | .str text => sqlString text
  | rest => sqlString (spelling.jsonText rest)

variable {language : Heklang}

/-- The seed as a literal, for a column that cannot be empty. -/
def seedLiteral (field : Reads.FieldMeta) (seed : Value language.Plain) : Option String :=
  if field.sealedUnder.isSome || field.kind.isNullable then none
  else some (formLiteral spelling (storedForm spelling field.kind (language.written seed)))

/-- A column of a fold: its type, and a seed of it that the language reads back.
Nothing sealed is a seed, and an optional type has an absent value. -/
structure FoldColumn (language : Heklang) where
  name : String
  field : Reads.FieldMeta
  ty : language.Ty
  seed : Value language.Plain
  fits : Fits language field.kind seed
  reads : language.fromJson (toHeklangJson (language.written seed)) ty = .ok seed
  documented : Documented spelling field.kind (language.written seed)
  unsealed : field.sealedUnder ≠ none → seed = .none
  absent : field.kind.isNullable = true → language.fromJson .null ty = .ok .none

namespace FoldColumn

variable {spelling} (column : FoldColumn spelling language)

/-- Whether a column is kept in the side table, as every collection is. -/
def collection : Bool :=
  match column.field.kind.base with
  | .json => true
  | _ => false

/-- An erasure empties a sealed column, whatever its type says. -/
def nullable : Bool := column.field.isNullable || column.field.sealedUnder.isSome

def default : Option String := seedLiteral spelling column.field column.seed

/-- The cell of a row that came to be without this column. -/
def defaultCell : Cell :=
  column.default.elim .null fun literal => (literalOf literal).cell sqlite column.field.kind

end FoldColumn

/-- A number that a literal keeps: one of 64 bits, or one that the database spells
and reads alike. -/
def NumberKept (numeral : String) (json : Json) : Prop :=
  (∃ number : Int64, json = .int number.toInt) ∨
    literalOf numeral = .real numeral ∧ spelling.jsonOf (sqlite.text numeral) = some json ∧
      sqlite.number numeral = json

/-- A document that a literal keeps: no flag, no text that is a document itself,
and no number that is spelled in another way. -/
def DocumentKept : Json → Prop
  | .bool _ => False
  | .str text => ∀ document, spelling.jsonOf text = some document → document = .str text
  | .int number => NumberKept spelling sqlite (toString number) (.int number)
  | .num text => NumberKept spelling sqlite text (.num text)
  | _ => True

/-- A seed that the column's empty or default cell holds: the seed of a sealed
column, an absent one, or one that its literal keeps. -/
inductive SeedKept (column : FoldColumn spelling language) : Prop where
  | personal (sealed_ : column.field.sealedUnder ≠ none)
  | absent (plain : column.field.sealedUnder = none) (nullable : column.field.kind.isNullable = true)
      (none_ : column.seed = .none)
  | literal (plain : column.field.sealedUnder = none) (required : column.field.kind.isNullable = false)
      (renderable : Renderable spelling column.field.kind (language.written column.seed))
      (document : column.field.kind.base = .json →
        DocumentKept spelling sqlite (language.written column.seed))

/-! ## What a literal is read as -/

variable {spelling sqlite} {kind : FieldKind} {json : Json}

theorem literal_str (text : String) : literalOf (formLiteral spelling (.str text)) = .text text :=
  literalOf_sqlString text

theorem literal_int (number : Int64) :
    literalOf (formLiteral spelling (.int number.toInt)) = .integer number :=
  literalOf_toString number

theorem literal_bool (flag : Bool) :
    literalOf (formLiteral spelling (.bool flag)) = .integer (if flag then 1 else 0) := by
  cases flag with
  | false => exact literalOf_toString 0
  | true => exact literalOf_toString 1

theorem literal_null : literalOf (formLiteral spelling .null) = .null := by
  change literalOf "NULL" = .null
  unfold literalOf
  split
  · next rest quoted =>
      have letters : "NULL".toList = ['N', 'U', 'L', 'L'] := by decide
      exact absurd (List.cons.inj (letters.symm.trans quoted)).1 (by decide)
  · exact if_pos rfl

/-- A literal that a document is read back from. -/
inductive Spells (spelling : Spelling) (sqlite : Sqlite) (json : Json) : Literal → Prop where
  | null (empty : json = .null) : Spells spelling sqlite json .null
  | integer (number : Int64) (same : json = .int number.toInt) :
      Spells spelling sqlite json (.integer number)
  | real (numeral : String) (read : spelling.jsonOf (sqlite.text numeral) = some json)
      (shown : sqlite.number numeral = json) : Spells spelling sqlite json (.real numeral)
  | text (held : String) (read : (spelling.jsonOf held).getD (.str held) = json) :
      Spells spelling sqlite json (.text held)

/-- The literal of a document that is kept spells it. -/
theorem document_spelt (documented : spelling.jsonOf (spelling.jsonText json) = some json)
    (kept : DocumentKept spelling sqlite json) :
    Spells spelling sqlite json (literalOf (formLiteral spelling json)) := by
  have number {numeral : String} (held : NumberKept spelling sqlite numeral json)
      (literal : formLiteral spelling json = numeral) :
      Spells spelling sqlite json (literalOf (formLiteral spelling json)) := by
    rcases held with ⟨small, rfl⟩ | ⟨real, read, shown⟩
    · rw [literal_int]
      exact .integer small rfl
    · rw [literal, real]
      exact .real numeral read shown
  have quoted (literal : formLiteral spelling json = sqlString (spelling.jsonText json)) :
      Spells spelling sqlite json (literalOf (formLiteral spelling json)) := by
    rw [literal, literalOf_sqlString]
    exact .text _ (by rw [documented, Option.getD_some])
  cases json with
  | null =>
      rw [literal_null]
      exact .null rfl
  | bool flag => exact kept.elim
  | int value => exact number kept rfl
  | num text => exact number kept rfl
  | str text =>
      rw [literal_str]
      refine .text text ?_
      cases read : spelling.jsonOf text with
      | none => rfl
      | some document => exact kept document read
  | arr items => exact quoted rfl
  | obj fields => exact quoted rfl

/-- A column of documents reads what its literal spells. -/
theorem Spells.served (numerals : Numerals spelling) {literal : Literal}
    (spells : Spells spelling sqlite json literal) :
    fromSql spelling { kind := .json } (literal.cell sqlite .json) = json := by
  cases spells with
  | null empty => exact empty.symm
  | integer number same =>
      change (spelling.jsonOf (toString number.toInt)).getD _ = _
      rw [numerals.reads, Option.getD_some, same]
  | real numeral read =>
      change (spelling.jsonOf (sqlite.text numeral)).getD _ = _
      rw [read, Option.getD_some]
  | text held read => exact read

/-- What stands for a cell shows what its literal spells. -/
theorem Spells.shown {field : Reads.FieldMeta} (plain : field.sealedUnder = none)
    (document : field.kind.base = .json) {literal : Literal}
    (spells : Spells spelling sqlite json literal) : literal.shown spelling sqlite field = json := by
  unfold Literal.shown fromSql
  rw [plain, document]
  cases spells with
  | null empty => exact empty.symm
  | integer number same => exact same.symm
  | real numeral _ shown => exact shown
  | text held read => exact read

/-- The cell that a kept seed's literal makes is served as the seed. -/
theorem literal_served (lawful : spelling.Lawful) (numerals : Numerals spelling)
    (holds : Holds kind.base json) (documented : Documented spelling kind json)
    (renderable : Renderable spelling kind json)
    (kept : kind.base = .json → DocumentKept spelling sqlite json) :
    fromSql spelling { kind } ((literalOf (formLiteral spelling
      (storedForm spelling kind json))).cell sqlite kind) = columnForm spelling kind json := by
  by_cases instant : kind.base = .timestamp
  · obtain ⟨cell, stored, served⟩ := plain_served lawful holds documented renderable
    rw [instant] at holds
    cases holds with
    | timestamp micros =>
        obtain ⟨text, form, -⟩ := stored_instant lawful instant renderable
        rw [form] at stored ⊢
        rw [literal_str, ← served]
        unfold toSql at stored
        dsimp only at stored
        rw [instant] at stored
        rw [← Except.ok.inj stored]
        rfl
  · rw [storedForm_of_ne instant, columnForm_of_ne instant]
    unfold Documented at documented
    unfold Literal.cell fromSql
    dsimp only
    generalize kind.base = base at holds instant documented kept
    cases holds with
    | timestamp => exact absurd rfl instant
    | i64 value =>
        rw [literal_int]
        rfl
    | bool flag =>
        rw [literal_bool]
        cases flag <;> rfl
    | json =>
        change fromSql spelling { kind := .json }
          ((literalOf (formLiteral spelling json)).cell sqlite .json) = json
        exact (document_spelt (documented rfl) (kept rfl)).served numerals
    | _ =>
        rw [literal_str]
        rfl

end Hekla.Language
