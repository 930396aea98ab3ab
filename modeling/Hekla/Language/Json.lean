import Hekla.Host.Schema
import Mathlib.Data.List.TakeDrop
import Mathlib.Data.List.TakeWhile

/-!
# The language's JSON and the wire's

The language holds a number as the text it was written with, and a credential
beside its redaction; the wire holds numbers that were parsed.  What the wire
gives crosses to the language and back unchanged, whatever it is; what the
language gives is first brought to the wire's spelling of its numbers.
-/

namespace Hekla.Language

open Hekla.Host

/-- The language's JSON. -/
inductive HeklangJson where
  | null
  | bool (flag : Bool)
  | num (text : String)
  | str (text : String)
  /-- A credential, by what may be shown of it. -/
  | secret (redacted : String)
  | arr (items : List HeklangJson)
  | obj (fields : List (String × HeklangJson))

/-! ## Numbers -/

/-- Whether digits are an integer part: there are some, and no zero leads. -/
def isWhole : List Char → Bool
  | [] => false
  | ['0'] => true
  | first :: _ => first != '0'

/-- A fraction, if one starts here, and what follows it. -/
def fraction : List Char → Option (List Char × List Char)
  | '.' :: rest =>
      let (digits, rest) := rest.span Char.isDigit
      if digits = [] then none else some ('.' :: digits, rest)
  | rest => some ([], rest)

/-- The sign of an exponent, which is always written, and what follows it. -/
def exponentSign : List Char → Char × List Char
  | '+' :: rest => ('+', rest)
  | '-' :: rest => ('-', rest)
  | rest => ('+', rest)

/-- An exponent in its one spelling, if one starts here, and what follows it. -/
def exponent : List Char → Option (List Char × List Char)
  | 'e' :: rest | 'E' :: rest =>
      let (sign, rest) := exponentSign rest
      let (digits, rest) := rest.span Char.isDigit
      if digits = [] then none else some ('e' :: sign :: digits, rest)
  | rest => some ([], rest)

/-- The number that an integer part with a sign and what follows it spell. -/
def numberOf (negative : Bool) (whole rest : List Char) : Option Json :=
  if isWhole whole then do
    let (fractional, rest) ← fraction rest
    let (scale, rest) ← exponent rest
    if rest ≠ [] then none
    else if fractional = [] ∧ scale = [] then
      let value : Int := Nat.ofDigitChars 10 whole 0
      some (.int (if negative then -value else value))
    else some (.num (String.ofList ((if negative then ['-'] else []) ++ whole ++ fractional ++ scale)))
  else none

/-- `str::parse` at a number of the wire, which keeps every digit. -/
def parseNumber (text : String) : Option Json :=
  match text.toList with
  | '-' :: rest =>
      let (whole, rest) := rest.span Char.isDigit
      numberOf true whole rest
  | rest =>
      let (whole, rest) := rest.span Char.isDigit
      numberOf false whole rest

example : parseNumber "1E5" = some (.num "1e+5") := by decide

example : parseNumber "-0" = some (.int 0) ∧ parseNumber "-0.0" = some (.num "-0.0") := by decide

/-- A numeral starts with a zero only when it is one. -/
theorem isWhole_toDigits (value : Nat) : isWhole (Nat.toDigits 10 value) = true := by
  induction value using Nat.strongRecOn with
  | _ value ih =>
      by_cases small : value < 10
      · rw [Nat.toDigits_of_lt_base small]
        by_cases zero : value = 0
        · subst zero
          rfl
        · have leading : value.digitChar ≠ '0' := fun same => zero (Nat.digitChar_eq_zero.mp same)
          simp [isWhole, leading]
      · have shorter := ih (value / 10) (by omega)
        rw [Nat.toDigits_of_base_le (by decide) (by omega)]
        have positive : Nat.toDigits 10 (value / 10) ≠ ['0'] := by
          intro same
          have back : value / 10 = Nat.ofDigitChars 10 ['0'] 0 := by
            rw [← same, Nat.ofDigitChars_ten_toDigits]
          have zero : value / 10 = 0 := back
          omega
        cases digits : Nat.toDigits 10 (value / 10) with
        | nil => exact absurd digits Nat.toDigits_ne_nil
        | cons first rest =>
            rw [digits] at shorter positive
            have leading : first ≠ '0' := by
              rintro rfl
              cases rest with
              | nil => exact positive rfl
              | cons second others => exact absurd shorter (by simp [isWhole])
            cases rest <;> simp [isWhole, leading]

theorem span_toDigits (value : Nat) :
    (Nat.toDigits 10 value).span Char.isDigit = (Nat.toDigits 10 value, []) := by
  have digits : ∀ char ∈ Nat.toDigits 10 value, char.isDigit = true := fun char member =>
    Nat.isDigit_of_mem_toDigits (by decide) (by decide) member
  rw [List.span_eq_takeWhile_dropWhile, List.takeWhile_eq_self_iff.mpr digits,
    List.dropWhile_eq_nil_iff.mpr digits]

theorem numberOf_toDigits (negative : Bool) (value : Nat) :
    numberOf negative (Nat.toDigits 10 value) [] =
      some (.int (if negative then -value else value)) := by
  unfold numberOf
  rw [if_pos (isWhole_toDigits value)]
  simp [fraction, exponent, Nat.ofDigitChars_ten_toDigits]

/-- An integer is read back from its numeral. -/
theorem parseNumber_toString (value : Int) : parseNumber (toString value) = some (.int value) := by
  rw [Int.toString_eq_repr, Int.repr_eq_if]
  by_cases positive : 0 ≤ value
  · rw [if_pos positive]
    unfold parseNumber
    rw [Nat.toList_repr]
    split
    · next rest signed =>
        have member : '-' ∈ Nat.toDigits 10 value.toNat := signed ▸ List.mem_cons_self
        exact absurd (Nat.isDigit_of_mem_toDigits (by decide) (by decide) member) (by decide)
    · rw [span_toDigits]
      dsimp only
      rw [numberOf_toDigits]
      simp [Int.toNat_of_nonneg positive]
  · rw [if_neg positive]
    unfold parseNumber
    rw [String.toList_append, Nat.toList_repr]
    change (match (Nat.toDigits 10 (-value).toNat).span Char.isDigit with
      | (whole, rest) => numberOf true whole rest) = some (.int value)
    rw [span_toDigits]
    dsimp only
    rw [numberOf_toDigits]
    have back : -((-value).toNat : Int) = value := by omega
    rw [if_pos rfl, back]

/-! ## Crossing over -/

mutual

/-- Whether every number in a value of the wire is one the wire parsed. -/
def parsed : Json → Bool
  | .num text => decide (parseNumber text = some (.num text))
  | .arr items => parsedItems items
  | .obj fields => parsedFields fields
  | _ => true

def parsedItems : List Json → Bool
  | [] => true
  | item :: rest => parsed item && parsedItems rest

def parsedFields : List (String × Json) → Bool
  | [] => true
  | (_, value) :: rest => parsed value && parsedFields rest

end

mutual

def toHeklangJson : Json → HeklangJson
  | .null => .null
  | .bool flag => .bool flag
  | .int value => .num (toString value)
  | .num text => .num text
  | .str text => .str text
  | .arr items => .arr (toHeklangItems items)
  | .obj fields => .obj (toHeklangFields fields)

def toHeklangItems : List Json → List HeklangJson
  | [] => []
  | item :: rest => toHeklangJson item :: toHeklangItems rest

def toHeklangFields : List (String × Json) → List (String × HeklangJson)
  | [] => []
  | (name, value) :: rest => (name, toHeklangJson value) :: toHeklangFields rest

end

mutual

/-- A credential crosses as its redaction, and a number that is none as its text. -/
def fromHeklangJson : HeklangJson → Json
  | .null => .null
  | .bool flag => .bool flag
  | .num text => (parseNumber text).getD (.str text)
  | .str text => .str text
  | .secret redacted => .str redacted
  | .arr items => .arr (fromHeklangItems items)
  | .obj fields => .obj (fromHeklangFields fields)

def fromHeklangItems : List HeklangJson → List Json
  | [] => []
  | item :: rest => fromHeklangJson item :: fromHeklangItems rest

def fromHeklangFields : List (String × HeklangJson) → List (String × Json)
  | [] => []
  | (name, value) :: rest => (name, fromHeklangJson value) :: fromHeklangFields rest

end

mutual

/-- What the wire parsed comes back from the language as itself. -/
theorem from_toHeklangJson : (json : Json) → parsed json = true →
    fromHeklangJson (toHeklangJson json) = json
  | .null, _ => rfl
  | .bool _, _ => rfl
  | .int value, _ => by rw [toHeklangJson, fromHeklangJson, parseNumber_toString, Option.getD_some]
  | .num text, proper => by
      rw [parsed] at proper
      rw [toHeklangJson, fromHeklangJson, of_decide_eq_true proper, Option.getD_some]
  | .str _, _ => rfl
  | .arr items, proper => by
      rw [parsed] at proper
      rw [toHeklangJson, fromHeklangJson, from_toHeklangItems items proper]
  | .obj fields, proper => by
      rw [parsed] at proper
      rw [toHeklangJson, fromHeklangJson, from_toHeklangFields fields proper]

theorem from_toHeklangItems : (items : List Json) → parsedItems items = true →
    fromHeklangItems (toHeklangItems items) = items
  | [], _ => rfl
  | item :: rest, proper => by
      rw [parsedItems, Bool.and_eq_true] at proper
      rw [toHeklangItems, fromHeklangItems, from_toHeklangJson item proper.1,
        from_toHeklangItems rest proper.2]

theorem from_toHeklangFields : (fields : List (String × Json)) → parsedFields fields = true →
    fromHeklangFields (toHeklangFields fields) = fields
  | [], _ => rfl
  | (_, value) :: rest, proper => by
      rw [parsedFields, Bool.and_eq_true] at proper
      rw [toHeklangFields, fromHeklangFields, from_toHeklangJson value proper.1,
        from_toHeklangFields rest proper.2]

end

end Hekla.Language
