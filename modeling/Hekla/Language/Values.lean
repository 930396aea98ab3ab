import Hekla.Language.Json
import Hekla.Reads.Sealed

/-!
# Values of the language

A value is told apart here as far as the host tells it apart: an optional, a
seal, or anything else.  How the rest converts to the language's JSON and back
is the language's own table, and so is how a sealed text is read; what a store
writes and reads is the JSON.
-/

namespace Hekla.Language

open Hekla.Host Hekla.Reads
open Hekla.Derived (FieldKind)

/-- A value: an optional is outermost, and a seal stands around content. -/
inductive Value (Plain : Type) where
  | plain (held : Plain)
  | none
  | some (held : Value Plain)
  | sealed (field subject id content : String)

/-- The value inside an optional. -/
def Value.peeled {Plain : Type} : Value Plain → Value Plain
  | .some held => held.peeled
  | other => other

/-- The language's conversions, and the types they go by. -/
structure Heklang where
  Plain : Type
  Ty : Type
  /-- `Json::from_value`. -/
  json : Plain → HeklangJson
  /-- `Value::from_json`. -/
  fromJson : HeklangJson → Ty → Except String (Value Plain)
  /-- `Value::from_sealed`, for the content of a type. -/
  fromSealed : String → Ty → Except String (Value Plain)

namespace Heklang

variable (language : Heklang)

/-- The JSON of a value; a seal has that of its ciphertext. -/
def fromValue : Value language.Plain → HeklangJson
  | .plain held => language.json held
  | .none => .null
  | .some held => fromValue held
  | .sealed _ _ _ content => .str content

/-- What the host is given of a value. -/
def written (value : Value language.Plain) : Json := fromHeklangJson (language.fromValue value)

end Heklang

/-- A form a column stores, back as the wire has it. -/
def wireForm (spelling : Spelling) (kind : FieldKind) (stored : Json) : Json :=
  match kind.base, stored with
  | .timestamp, .str text => (spelling.timestamp text).elim stored fun micros => .int micros.toInt
  | _, _ => stored

variable {spelling : Spelling} {kind : FieldKind} {json : Json}

theorem wireForm_of_ne (other : kind.base ≠ .timestamp) : wireForm spelling kind json = json := by
  unfold wireForm
  split
  · next instant => exact absurd instant other
  · rfl

/-- An instant is the same on the wire again, in whichever spelling it was. -/
theorem wireForm_timestamp (instant : kind.base = .timestamp) {micros : Int64} {text : String}
    (reads : spelling.timestamp text = some micros) :
    wireForm spelling kind (.str text) = .int micros.toInt := by
  unfold wireForm
  rw [instant]
  dsimp only
  rw [reads, Option.elim_some]

/-- What a value of a column's type is: present and of the kind, or absent where
the kind admits it. -/
inductive Fits (language : Heklang) (kind : FieldKind) : Value language.Plain → Prop where
  | plain (held : language.Plain) (required : kind.isNullable = false)
      (holds : Holds kind.base (fromHeklangJson (language.json held))) : Fits language kind (.plain held)
  | none (nullable : kind.isNullable = true) : Fits language kind .none
  | some (held : language.Plain) (nullable : kind.isNullable = true)
      (holds : Holds kind.base (fromHeklangJson (language.json held))) :
      Fits language kind (.some (.plain held))

/-- A JSON value with no parts of its own, and no number. -/
def Leaf : Json → Prop
  | .null | .bool _ | .str _ => True
  | _ => False

/-- The conversions are inverse to each other at a value: it is read from what it
is written as, the wire keeps that, and a document that is a text, a flag or
nothing is read from itself only. -/
structure Converts (language : Heklang) (kind : FieldKind) (ty : language.Ty)
    (value : Value language.Plain) : Prop where
  reads : language.fromJson (toHeklangJson (language.written value)) ty = .ok value
  only : kind.base = .json → Leaf (language.written value) → ∀ json,
    language.fromJson (toHeklangJson json) ty = .ok value → json = language.written value

/-- How numbers are spelled: by their digits, which are no instant's. -/
structure Numerals (spelling : Spelling) : Prop where
  writes : ∀ number : Int, spelling.jsonText (.int number) = toString number
  reads : ∀ number : Int, spelling.jsonOf (toString number) = some (.int number)
  instant : ∀ number : Int, spelling.timestamp (toString number) = none

end Hekla.Language
