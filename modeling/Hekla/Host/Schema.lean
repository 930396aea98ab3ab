import Hekla.Library.Table
import Mathlib.Data.List.Sort
import Mathlib.Data.List.Dedup
import Mathlib.Data.String.Basic

/-!
# Events, their fields and their tags

An event declaration says which fields become tags and which are sealed under a
subject.  A tag is one string, a field's name and its text with a colon between
them, and a stored event's tags are a sorted set.  The host's own tags live
under a prefix no field name has.
-/

namespace Hekla.Host

open Hekla.Library

/-- JSON, with a number that fits an integer apart from any other. -/
inductive Json where
  | null
  | bool (flag : Bool)
  | int (value : Int)
  | num (text : String)
  | str (text : String)
  | arr (items : List Json)
  | obj (fields : List (String × Json))

namespace Json

def isNull : Json → Bool
  | .null => true
  | _ => false

/-- The member of an object under a name. -/
def get (json : Json) (name : String) : Option Json :=
  match json with
  | .obj fields => (fields.find? fun field => field.1 == name).map Prod.snd
  | _ => none

def asBool : Json → Option Bool
  | .bool flag => some flag
  | _ => none

def asStr : Json → Option String
  | .str text => some text
  | _ => none

/-- The integer, when it is one of 64 bits. -/
def asI64 : Json → Option Int64
  | .int value =>
      if Int64.minValue.toInt ≤ value ∧ value ≤ Int64.maxValue.toInt then some (Int64.ofInt value)
      else none
  | _ => none

mutual
def same : Json → Json → Bool
  | .null, .null => true
  | .bool one, .bool other => one == other
  | .int one, .int other => one == other
  | .num one, .num other => one == other
  | .str one, .str other => one == other
  | .arr one, .arr other => sameItems one other
  | .obj one, .obj other => sameFields one other
  | _, _ => false

def sameItems : List Json → List Json → Bool
  | [], [] => true
  | one :: rest, other :: others => same one other && sameItems rest others
  | _, _ => false

def sameFields : List (String × Json) → List (String × Json) → Bool
  | [], [] => true
  | (name, one) :: rest, (name', other) :: others =>
      name == name' && same one other && sameFields rest others
  | _, _ => false
end

mutual
theorem same_iff : (one other : Json) → (same one other = true ↔ one = other)
  | .null, other => by cases other <;> simp [same]
  | .bool _, other => by cases other <;> simp [same]
  | .int _, other => by cases other <;> simp [same]
  | .num _, other => by cases other <;> simp [same]
  | .str _, other => by cases other <;> simp [same]
  | .arr items, other => by
      cases other with
      | arr others => simp [same, sameItems_iff items others]
      | _ => simp [same]
  | .obj fields, other => by
      cases other with
      | obj others => simp [same, sameFields_iff fields others]
      | _ => simp [same]

theorem sameItems_iff : (items others : List Json) → (sameItems items others = true ↔ items = others)
  | [], others => by cases others <;> simp [sameItems]
  | item :: rest, others => by
      cases others with
      | nil => simp [sameItems]
      | cons other others => simp [sameItems, same_iff item other, sameItems_iff rest others]

theorem sameFields_iff : (fields others : List (String × Json)) →
    (sameFields fields others = true ↔ fields = others)
  | [], others => by cases others <;> simp [sameFields]
  | (name, value) :: rest, others => by
      cases others with
      | nil => simp [sameFields]
      | cons other others =>
          obtain ⟨name', value'⟩ := other
          simp [sameFields, same_iff value value', sameFields_iff rest others]
end

instance : DecidableEq Json := fun one other => decidable_of_iff _ (same_iff one other)
end Json

theorem asI64_int (value : Int64) : (Json.int value.toInt).asI64 = some value := by
  have bounds : Int64.minValue.toInt ≤ value.toInt ∧ value.toInt ≤ Int64.maxValue.toInt :=
    ⟨Int64.minValue_le_toInt value, Int64.toInt_le value⟩
  simp only [Json.asI64]
  rw [if_pos bounds, Int64.ofInt_toInt]

/-- The text of a scalar, for a tag or a subject id. -/
def scalarToString : Json → Option String
  | .str text => some text
  | .int value => some (toString value)
  | .num text => some text
  | .bool flag => some (toString flag)
  | _ => none

/-! ## Declarations -/

/-- Where a sealed value's key is filed: the subject with the field its id is
read from, then each ancestor the same way, nearest first. -/
structure Seal where
  subject : String
  idField : String
  ancestors : List (String × String) := []

namespace Seal

def chain (filed : Seal) : List (String × String) := (filed.subject, filed.idField) :: filed.ancestors

/-- The chain with each id looked up, unless one is missing. -/
def resolve (filed : Seal) (ids : Table String String) : Option (List (String × String)) :=
  filed.chain.mapM fun link => (ids.get link.2).map fun id => (link.1, id)

/-- The fields a write must carry for its chain to resolve. -/
def needs (filed : Seal) : String :=
  ", ".intercalate (filed.chain.map fun link => s!"`{link.2}` for `{link.1}`")

end Seal

structure FieldMeta where
  indexed : Bool := true
  sealedUnder : Option Seal := none

/-- The prefix of the host's own tags. -/
def reservedTagPrefix : String := "_hekla_"

def startsWith (text start : String) : Bool := start.toList.isPrefixOf text.toList

/-- An event declaration.  No field is named twice, a name is an identifier, and
none of them is in the host's tag namespace. -/
structure EventDef where
  fields : List (String × FieldMeta)
  distinct : (fields.map Prod.fst).Nodup
  identifiers : ∀ name ∈ fields.map Prod.fst, ':' ∉ name.toList
  unreserved : ∀ name ∈ fields.map Prod.fst, startsWith name reservedTagPrefix = false

namespace EventDef

def field (declared : EventDef) (name : String) : Option FieldMeta :=
  (declared.fields.find? fun field => field.1 == name).map Prod.snd

/-- Whether a field's content is ciphertext. -/
def isSubject (declared : EventDef) (name : String) : Bool :=
  (declared.field name).any fun field => field.sealedUnder.isSome

end EventDef

abbrev EventDefs := Table String EventDef

/-! ## Tags -/

/-- A tag before it is rendered: a key, and a value if it has one. -/
abbrev TagPair := String × Option String

def renderTag (pair : TagPair) : String :=
  match pair.2 with
  | some value => pair.1 ++ ":" ++ value
  | none => pair.1

/-- What stands before the first colon of a tag. -/
def tagKey (tag : String) : String := String.ofList (tag.toList.takeWhile (· ≠ ':'))

def sortTags (tags : List String) : List String := tags.insertionSort (· ≤ ·)

/-- The tags of a stored event: a sorted set. -/
def buildTags (pairs : List TagPair) (extra : List String) : List String :=
  sortTags (pairs.map renderTag ++ extra).dedup

/-- The tags of a response, sorted as the stored ones are. -/
def tagStrings (tags : List TagPair) : List String := sortTags (tags.map renderTag)

/-- The tag a keyed request's events carry: the digest binds the key to the command. -/
def idempotencyTag (sha256Hex : String → String) (command key : String) : String :=
  "_hekla_idem:" ++ sha256Hex (command ++ "\x00" ++ key)

def correlationTag (correlationId : String) : String := "_hekla_corr:" ++ correlationId

/-! ## Rendered tags -/

theorem startsWith_iff (text start : String) :
    startsWith text start = true ↔ start.toList <+: text.toList :=
  List.isPrefixOf_iff_prefix

theorem mem_sortTags (tags : List String) (tag : String) : tag ∈ sortTags tags ↔ tag ∈ tags :=
  List.mem_insertionSort _

theorem mem_buildTags (pairs : List TagPair) (extra : List String) (tag : String) :
    tag ∈ buildTags pairs extra ↔ (∃ pair ∈ pairs, renderTag pair = tag) ∨ tag ∈ extra := by
  unfold buildTags
  rw [mem_sortTags, List.mem_dedup, List.mem_append, List.mem_map]

theorem renderTag_some_toList (name value : String) :
    (renderTag (name, some value)).toList = name.toList ++ ':' :: value.toList := by
  simp [renderTag]

/-- The key of a rendered tag is the field's name, which has no colon. -/
theorem tagKey_renderTag {name : String} (value : String) (identifier : ':' ∉ name.toList) :
    tagKey (renderTag (name, some value)) = name := by
  unfold tagKey
  rw [renderTag_some_toList, List.takeWhile_append_of_pos]
  · simp
  · intro letter member
    have differs : letter ≠ ':' := by
      rintro rfl
      exact identifier member
    simpa using differs

/-- A tag of a field outside the host's namespace is outside it as well. -/
theorem unreserved_renderTag {name : String} (value : String)
    (outside : startsWith name reservedTagPrefix = false) :
    startsWith (renderTag (name, some value)) reservedTagPrefix = false := by
  rw [Bool.eq_false_iff] at outside ⊢
  intro reserved
  apply outside
  rw [startsWith_iff] at reserved ⊢
  rw [renderTag_some_toList] at reserved
  rcases List.prefix_or_prefix_of_prefix reserved (List.prefix_append _ _) with within | ⟨rest, eq⟩
  · exact within
  · -- The prefix would have to run past the name, into the colon.
    rw [← eq, List.prefix_append_right_inj] at reserved
    cases rest with
    | nil =>
        rw [List.append_nil] at eq
        exact eq ▸ List.prefix_rfl
    | cons letter later =>
        obtain ⟨rfl, -⟩ := List.cons_prefix_cons.mp reserved
        have colon : ':' ∈ reservedTagPrefix.toList := by
          rw [← eq]
          exact List.mem_append_right _ List.mem_cons_self
        have free : ':' ∉ reservedTagPrefix.toList := by decide
        exact absurd colon free

theorem reserved_idempotencyTag (sha256Hex : String → String) (command key : String) :
    startsWith (idempotencyTag sha256Hex command key) reservedTagPrefix = true := by
  rw [startsWith_iff, idempotencyTag, String.toList_append]
  exact List.IsPrefix.trans (by decide) (List.prefix_append _ _)

theorem reserved_correlationTag (correlationId : String) :
    startsWith (correlationTag correlationId) reservedTagPrefix = true := by
  rw [startsWith_iff, correlationTag, String.toList_append]
  exact List.IsPrefix.trans (by decide) (List.prefix_append _ _)

/-- The two kinds of host tag are apart. -/
theorem correlationTag_ne_idempotencyTag (sha256Hex : String → String)
    (correlationId command key : String) :
    correlationTag correlationId ≠ idempotencyTag sha256Hex command key := by
  intro same
  have letters := congrArg (fun tag => (tag.toList.drop 7).head?) same
  simp only [correlationTag, idempotencyTag, String.toList_append] at letters
  revert letters
  simp

end Hekla.Host
