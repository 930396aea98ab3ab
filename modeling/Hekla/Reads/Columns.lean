import Hekla.Derived.Tables
import Hekla.Host.Schema
import Hekla.Library.Select

/-!
# Columns of a read model

A column has a kind, and a kind says what a cell of it may hold, in what order
its cells are told apart, and how a text that names a cell is read.  A timestamp
is stored at one fixed width and served in a shorter spelling, so what a reader
is given is not what is stored; a text that a reader hands back is spelled the
stored way again before it is compared.
-/

namespace Hekla.Derived.FieldKind

/-- The kind under an optional one. -/
def base : FieldKind → FieldKind
  | .optional inner => inner
  | other => other

/-- Whether a column of this kind has a total order, which a cursor needs. -/
def isKeyable : FieldKind → Bool
  | .text _ | .i64 | .uuid | .timestamp | .oneOf _ => true
  | _ => false

/-- Whether the stored order is the one the declaration means, which a range needs. -/
def isComparable (kind : FieldKind) : Bool :=
  kind.isKeyable && !(match kind with | .oneOf _ => true | _ => false)

/-- The kind the way an author declares it. -/
def describe : FieldKind → String
  | .text (some most) => s!"String @max({most})"
  | .text none => "String"
  | .i64 => "Int"
  | .bool => "Bool"
  | .uuid => "Uuid"
  | .timestamp => "Timestamp"
  | .money scale => s!"Money({scale})"
  | .json => "Json"
  | .oneOf values => " | ".intercalate values
  | .optional (.text (some most)) => s!"String? @max({most})"
  | .optional (.oneOf values) => "(" ++ " | ".intercalate values ++ ")?"
  | .optional other => describe other ++ "?"

theorem keyable_of_comparable {kind : FieldKind} (ordered : kind.isComparable = true) :
    kind.isKeyable = true := by
  unfold isComparable at ordered
  exact (Bool.and_eq_true_iff.mp ordered).1

end Hekla.Derived.FieldKind

namespace Hekla.Reads

open Hekla.Library Hekla.Host
open Hekla.Derived (FieldKind)

structure FieldMeta where
  kind : FieldKind
  sealedUnder : Option Seal := none
  /-- The subject this field holds an id of. -/
  identifies : Option String := none

def FieldMeta.isNullable (field : FieldMeta) : Bool := field.kind.isNullable

/-! ## Integers as text -/

def parseDigits (digits : List Char) : Option Nat :=
  if digits ≠ [] ∧ digits.all Char.isDigit then some (Nat.ofDigitChars 10 digits 0) else none

/-- `str::parse` at a 64-bit integer. -/
def parseI64 (raw : String) : Option Int64 :=
  match raw.toList with
  | '-' :: digits => (parseDigits digits).bind fun value => (Json.int (-value)).asI64
  | '+' :: digits => (parseDigits digits).bind fun value => (Json.int value).asI64
  | digits => (parseDigits digits).bind fun value => (Json.int value).asI64

theorem parseDigits_repr (value : Nat) : parseDigits value.repr.toList = some value := by
  have some_ : value.repr.toList ≠ [] := by
    intro none
    exact Nat.repr_ne_empty (String.toList_inj.mp none)
  have digits : value.repr.toList.all Char.isDigit = true := by
    rw [List.all_eq_true, Nat.toList_repr]
    intro char member
    exact Nat.isDigit_of_mem_toDigits (by decide) (by decide) member
  unfold parseDigits
  rw [if_pos ⟨some_, digits⟩, Nat.toList_repr, Nat.ofDigitChars_ten_toDigits]

theorem parseI64_of_digits {raw : String} (digits : ∀ char ∈ raw.toList, char.isDigit = true) :
    parseI64 raw = (parseDigits raw.toList).bind fun value => (Json.int value).asI64 := by
  unfold parseI64
  split
  · next listed =>
      rw [listed] at digits
      exact absurd (digits '-' List.mem_cons_self) (by decide)
  · next listed =>
      rw [listed] at digits
      exact absurd (digits '+' List.mem_cons_self) (by decide)
  · rfl

/-- Every 64-bit integer is read back from its decimal form. -/
theorem parseI64_toString (value : Int64) : parseI64 (toString value.toInt) = some value := by
  rw [Int.toString_eq_repr, Int.repr_eq_if]
  by_cases positive : 0 ≤ value.toInt
  · rw [if_pos positive, parseI64_of_digits, parseDigits_repr, Option.bind_some,
      Int.toNat_of_nonneg positive]
    · exact asI64_int value
    · intro char member
      rw [Nat.toList_repr] at member
      exact Nat.isDigit_of_mem_toDigits (by decide) (by decide) member
  · have back : -((-value.toInt).toNat : Int) = value.toInt := by omega
    rw [if_neg positive]
    unfold parseI64
    rw [String.toList_append]
    change (parseDigits (-value.toInt).toNat.repr.toList).bind
      (fun (read : Nat) => (Json.int (-read)).asI64) = some value
    rw [parseDigits_repr, Option.bind_some, back]
    exact asI64_int value

/-! ## What is stored and what is served -/

/-- How instants and documents are spelled. -/
structure Spelling where
  /-- RFC 3339 text as epoch microseconds. -/
  timestamp : String → Option Int64
  /-- The short spelling of an instant, without trailing zeros. -/
  rfc3339 : Int64 → Option String
  /-- The spelling at one fixed width, in UTC. -/
  storedTimestamp : Int64 → Option String
  jsonText : Json → String
  jsonOf : String → Option Json

/-- Either spelling of an instant reads as that instant, and the two have the
same range, the years of four digits. -/
structure Spelling.Lawful (spelling : Spelling) : Prop where
  stored_reads : ∀ {micros text}, spelling.storedTimestamp micros = some text →
    spelling.timestamp text = some micros
  served_reads : ∀ {micros text}, spelling.rfc3339 micros = some text →
    spelling.timestamp text = some micros
  same_range : ∀ micros, (spelling.rfc3339 micros).isSome = (spelling.storedTimestamp micros).isSome

variable (spelling : Spelling)

def servedTimestamp (text : String) : Option String :=
  (spelling.timestamp text).bind spelling.rfc3339

/-- The form a value has on the wire and in a sealed column. -/
def columnForm (kind : FieldKind) (json : Json) : Json :=
  match kind.base, json with
  | .timestamp, .int _ => (json.asI64.bind spelling.rfc3339).elim json .str
  | _, _ => json

/-- What a column holds: the wire form, except that a timestamp has one width. -/
def storedForm (kind : FieldKind) (json : Json) : Json :=
  match kind.base, json with
  | .timestamp, .int _ => (json.asI64.bind spelling.storedTimestamp).elim json .str
  | .timestamp, .str text =>
      ((spelling.timestamp text).bind spelling.storedTimestamp).elim json .str
  | _, _ => columnForm spelling kind json

def toSql (field : FieldMeta) (value : Json) : Except String Cell :=
  if value.isNull then .ok .null
  else if field.sealedUnder.isSome then
    value.asStr.elim (.error "a subject-scoped column stores ciphertext text") fun text =>
      .ok (.text text)
  else
    match field.kind.base with
    | .bool =>
        ((value.asBool.map fun flag => if flag then 1 else 0).orElse fun _ => value.asI64).elim
          (.error "expected a boolean") fun number => .ok (.integer number)
    | .i64 => value.asI64.elim (.error "expected an integer") fun number => .ok (.integer number)
    | .text _ | .uuid | .timestamp | .oneOf _ | .money _ =>
        value.asStr.elim (.error "expected a string") fun text => .ok (.text text)
    | .json => .ok (.text (spelling.jsonText value))
    | .optional _ => .error "base() strips Optional"

/-- The cell that a text names, in a key, a filter or a cursor. -/
def coerceValue (kind : FieldKind) (raw : String) : Except String Cell :=
  match kind.base with
  | .bool =>
      if raw = "true" ∨ raw = "1" then .ok (.integer 1)
      else if raw = "false" ∨ raw = "0" then .ok (.integer 0)
      else .error "expected a boolean (`true` or `false`)"
  | .i64 => (parseI64 raw).elim (.error "expected an integer") fun number => .ok (.integer number)
  | .timestamp =>
      ((spelling.timestamp raw).bind spelling.storedTimestamp).elim
        (.error "expected an RFC 3339 timestamp with an offset") fun text => .ok (.text text)
  | _ => .ok (.text raw)

def bindOrText (kind : FieldKind) (raw : String) : Cell :=
  match coerceValue spelling kind raw with
  | .ok cell => cell
  | .error _ => .text raw

def fromSql (field : FieldMeta) (cell : Cell) : Json :=
  if field.sealedUnder.isSome then
    match cell with
    | .text text => .str text
    | _ => .null
  else
    match cell with
    | .null => .null
    | .integer number =>
        match field.kind.base with
        | .bool => .bool (number != 0)
        | _ => .int number.toInt
    | .text text =>
        match field.kind.base with
        | .json => (spelling.jsonOf text).getD (.str text)
        | .timestamp => .str ((servedTimestamp spelling text).getD text)
        | _ => .str text
    | .blob _ => .null

/-- The text of a served value, for a cursor.  No flag, list or object is one. -/
def scalarString : Json → Option String
  | .str text => some text
  | .int number => some (toString number)
  | .num text => some text
  | _ => none

/-! ## A cell by the text that is served for it -/

/-- The cells that a column of a keyable kind holds.  A timestamp that has a
stored spelling is stored in it. -/
def Spelled (kind : FieldKind) (cell : Cell) : Prop :=
  match kind with
  | .i64 => ∃ number, cell = .integer number
  | .timestamp => ∃ text, cell = .text text ∧
      ∀ spelt, (spelling.timestamp text).bind spelling.storedTimestamp = some spelt → spelt = text
  | .text _ | .uuid | .oneOf _ => ∃ text, cell = .text text
  | _ => True

variable {spelling}

theorem base_of_keyable {kind : FieldKind} (keyable : kind.isKeyable = true) : kind.base = kind := by
  cases kind with
  | optional inner => cases keyable
  | _ => rfl

theorem stored_timestamp_spelled (lawful : spelling.Lawful) {micros : Int64} {text : String}
    (stored : spelling.storedTimestamp micros = some text) :
    Spelled spelling .timestamp (.text text) := by
  refine ⟨text, rfl, ?_⟩
  intro spelt again
  rw [lawful.stored_reads stored, Option.bind_some, stored] at again
  exact (Option.some.inj again).symm

theorem text_of_bound {value : Json} {cell : Cell} (present : cell ≠ .null)
    (bound : (if value.isNull then .ok .null
      else value.asStr.elim (.error "expected a string") fun text => .ok (.text text)) =
        (.ok cell : Except String Cell)) : ∃ text, value = .str text ∧ cell = .text text := by
  cases value with
  | null => exact absurd (Except.ok.inj bound).symm present
  | str text => exact ⟨text, rfl, (Except.ok.inj bound).symm⟩
  | _ => cases bound

theorem number_of_bound {value : Json} {cell : Cell} (present : cell ≠ .null)
    (bound : (if value.isNull then .ok .null
      else value.asI64.elim (.error "expected an integer") fun number => .ok (.integer number)) =
        (.ok cell : Except String Cell)) : ∃ number, cell = .integer number := by
  cases value with
  | null => exact absurd (Except.ok.inj bound).symm present
  | int written =>
      cases read : (Json.int written).asI64 with
      | none =>
          rw [read] at bound
          cases bound
      | some number =>
          rw [read] at bound
          exact ⟨number, (Except.ok.inj bound).symm⟩
  | _ => cases bound

/-- What a timestamp column is given to hold is spelled as it should be. -/
theorem timestamp_spelled (lawful : spelling.Lawful) {json : Json} {text : String}
    (stored : storedForm spelling .timestamp json = .str text) :
    Spelled spelling .timestamp (.text text) := by
  cases json with
  | int micros =>
      change ((Json.int micros).asI64.bind spelling.storedTimestamp).elim (Json.int micros) .str =
        .str text at stored
      cases read : (Json.int micros).asI64.bind spelling.storedTimestamp with
      | none =>
          rw [read] at stored
          cases stored
      | some spelt =>
          rw [read] at stored
          cases stored
          obtain ⟨_, _, spelled⟩ := Option.bind_eq_some_iff.mp read
          exact stored_timestamp_spelled lawful spelled
  | str raw =>
      change ((spelling.timestamp raw).bind spelling.storedTimestamp).elim (Json.str raw) .str =
        .str text at stored
      cases read : (spelling.timestamp raw).bind spelling.storedTimestamp with
      | none =>
          rw [read] at stored
          cases stored
          exact ⟨text, rfl, fun spelt again => nomatch read.symm.trans again⟩
      | some spelt =>
          rw [read] at stored
          cases stored
          obtain ⟨_, _, spelled⟩ := Option.bind_eq_some_iff.mp read
          exact stored_timestamp_spelled lawful spelled
  | _ => cases stored

/-- Whatever a keyable column is given to hold is spelled as it should be. -/
theorem spelled_of_toSql (lawful : spelling.Lawful) {json : Json} {cell : Cell} {field : FieldMeta}
    (keyable : field.kind.isKeyable = true) (unsealed : field.sealedUnder = none)
    (bound : toSql spelling field (storedForm spelling field.kind json) = .ok cell)
    (present : cell ≠ .null) : Spelled spelling field.kind cell := by
  unfold toSql at bound
  rw [unsealed] at bound
  cases kind : field.kind with
  | timestamp =>
      rw [kind] at bound
      obtain ⟨text, stored, rfl⟩ := text_of_bound present bound
      exact timestamp_spelled lawful stored
  | i64 =>
      rw [kind] at bound
      exact number_of_bound present bound
  | text most =>
      rw [kind] at bound
      obtain ⟨text, _, rfl⟩ := text_of_bound present bound
      exact ⟨text, rfl⟩
  | uuid =>
      rw [kind] at bound
      obtain ⟨text, _, rfl⟩ := text_of_bound present bound
      exact ⟨text, rfl⟩
  | oneOf values =>
      rw [kind] at bound
      obtain ⟨text, _, rfl⟩ := text_of_bound present bound
      exact ⟨text, rfl⟩
  | _ =>
      rw [kind] at keyable
      cases keyable

theorem bindOrText_timestamp (raw : String) : bindOrText spelling .timestamp raw =
    .text (((spelling.timestamp raw).bind spelling.storedTimestamp).getD raw) := by
  unfold bindOrText coerceValue
  dsimp only [FieldKind.base]
  cases (spelling.timestamp raw).bind spelling.storedTimestamp <;> rfl

/-- A stored timestamp is found again by the spelling it is served in. -/
theorem timestamp_served (lawful : spelling.Lawful) {text : String}
    (canonical : ∀ spelt, (spelling.timestamp text).bind spelling.storedTimestamp = some spelt →
      spelt = text) :
    bindOrText spelling .timestamp ((servedTimestamp spelling text).getD text) = .text text := by
  unfold servedTimestamp
  rw [bindOrText_timestamp]
  cases read : spelling.timestamp text with
  | none => simp [read]
  | some micros =>
      rw [Option.bind_some]
      have range := lawful.same_range micros
      cases short : spelling.rfc3339 micros with
      | none =>
          rw [short] at range
          have none_ : spelling.storedTimestamp micros = none :=
            Option.not_isSome_iff_eq_none.mp (by simp [← range])
          simp [read, none_]
      | some served =>
          rw [short] at range
          obtain ⟨spelt, stored⟩ := Option.isSome_iff_exists.mp range.symm
          have same := canonical spelt (by rw [read, Option.bind_some, stored])
          rw [Option.getD_some, lawful.served_reads short, Option.bind_some, stored, same,
            Option.getD_some]

/-- A cell of a keyable column is found again by the text that is served for it. -/
theorem Spelled.served (lawful : spelling.Lawful) {cell : Cell} {field : FieldMeta}
    (keyable : field.kind.isKeyable = true) (unsealed : field.sealedUnder = none)
    (spelled : Spelled spelling field.kind cell) :
    ∃ text, scalarString (fromSql spelling field cell) = some text ∧
      bindOrText spelling field.kind text = cell := by
  unfold fromSql
  rw [unsealed]
  cases kind : field.kind with
  | timestamp =>
      rw [kind] at spelled
      obtain ⟨text, rfl, canonical⟩ := spelled
      exact ⟨_, rfl, timestamp_served lawful canonical⟩
  | i64 =>
      rw [kind] at spelled
      obtain ⟨number, rfl⟩ := spelled
      refine ⟨toString number.toInt, rfl, ?_⟩
      unfold bindOrText coerceValue
      dsimp only [FieldKind.base]
      rw [parseI64_toString]
      rfl
  | text most =>
      rw [kind] at spelled
      obtain ⟨text, rfl⟩ := spelled
      exact ⟨text, rfl, rfl⟩
  | uuid =>
      rw [kind] at spelled
      obtain ⟨text, rfl⟩ := spelled
      exact ⟨text, rfl, rfl⟩
  | oneOf values =>
      rw [kind] at spelled
      obtain ⟨text, rfl⟩ := spelled
      exact ⟨text, rfl, rfl⟩
  | _ =>
      rw [kind] at keyable
      cases keyable

end Hekla.Reads
