import Hekla.Host.Schema
import Hekla.Library.Passes
import Hekla.Library.Slots

/-!
# The envelope of a stored event

An event is stored as one object, the metadata the host stamped beside the
payload.  Reading it back is one pass over the entries of the object: each field
is taken once, a field this version does not know is skipped, and the payload is
whatever it is.  How bytes spell an object and an id is the serializer's.
-/

namespace Hekla.Host

open Hekla.Library

abbrev Uuid := BitVec 128

/-- Per-event metadata stamped by the host at append. -/
structure Envelope where
  eventId : Uuid
  timestamp : String
  correlationId : Uuid
  causationId : Uuid
  triggeringEventId : Option Uuid := none
  deriving DecidableEq

/-- Which key an entry names. -/
inductive Field where
  | eventId
  | timestamp
  | correlationId
  | causationId
  | triggeringEventId
  | data
  | unknown
  deriving DecidableEq

namespace Field

def of (key : String) : Field :=
  if key = "event_id" then .eventId
  else if key = "timestamp" then .timestamp
  else if key = "correlation_id" then .correlationId
  else if key = "causation_id" then .causationId
  else if key = "triggering_event_id" then .triggeringEventId
  else if key = "data" then .data
  else .unknown

/-- The key of a field that has one. -/
def key : Field → Option String
  | .eventId => some "event_id"
  | .timestamp => some "timestamp"
  | .correlationId => some "correlation_id"
  | .causationId => some "causation_id"
  | .triggeringEventId => some "triggering_event_id"
  | .data => some "data"
  | .unknown => none

/-- An event without one of these is refused. -/
def isRequired : Field → Bool
  | .triggeringEventId | .unknown => false
  | _ => true

theorem of_eq_iff {field : Field} {name key : String} (named : field.key = some name) :
    of key = field ↔ key = name := by
  constructor
  · rintro rfl
    unfold of at named
    repeat' split at named
    all_goals cases named <;> assumption
  · rintro rfl
    cases field <;> cases named <;> decide

end Field

/-- Why stored bytes are not an event. -/
inductive Undecodable where
  | notAnObject
  | duplicateField (name : String)
  | missingField (name : String)
  | invalidType (expected : String)
  deriving DecidableEq

/-- How the serializer spells an object and an id. -/
structure Serde where
  bytes : List (String × Json) → List UInt8
  entries : List UInt8 → Option (List (String × Json))
  uuidText : Uuid → String
  parseUuid : String → Option Uuid

variable (serde : Serde)

def readUuid : Json → Except Undecodable Uuid
  | .str text => (serde.parseUuid text).elim (.error (.invalidType "a UUID")) .ok
  | _ => .error (.invalidType "a UUID string")

def readOptionalUuid : Json → Except Undecodable (Option Uuid)
  | .null => .ok none
  | json => (readUuid serde json).map some

def readString : Json → Except Undecodable String
  | .str text => .ok text
  | _ => .error (.invalidType "a string")

/-- Any value is a payload. -/
def readValue (json : Json) : Except Undecodable Json := .ok json

/-- The fields that a pass has met so far. -/
structure StoredVisitor where
  eventId : Option Uuid := none
  timestamp : Option String := none
  correlationId : Option Uuid := none
  causationId : Option Uuid := none
  triggeringEventId : Option (Option Uuid) := none
  data : Option Json := none

/-- Take one entry: a known field once, an unknown one not at all. -/
def visitEntry (slots : StoredVisitor) (entry : Field × Json) : Except Undecodable StoredVisitor :=
  match entry.1 with
  | .eventId =>
      (Slots.fill (readUuid serde) (.duplicateField "event_id") slots.eventId entry.2).map
        fun eventId => { slots with eventId }
  | .timestamp =>
      (Slots.fill readString (.duplicateField "timestamp") slots.timestamp entry.2).map
        fun timestamp => { slots with timestamp }
  | .correlationId =>
      (Slots.fill (readUuid serde) (.duplicateField "correlation_id") slots.correlationId
        entry.2).map fun correlationId => { slots with correlationId }
  | .causationId =>
      (Slots.fill (readUuid serde) (.duplicateField "causation_id") slots.causationId entry.2).map
        fun causationId => { slots with causationId }
  | .triggeringEventId =>
      (Slots.fill (readOptionalUuid serde) (.duplicateField "triggering_event_id")
        slots.triggeringEventId entry.2).map fun triggeringEventId => { slots with triggeringEventId }
  | .data =>
      (Slots.fill readValue (.duplicateField "data") slots.data entry.2).map
        fun data => { slots with data }
  | .unknown => .ok slots

def required {α : Type} (slot : Option α) (name : String) : Except Undecodable α :=
  slot.elim (.error (.missingField name)) .ok

/-- The event of the fields that were met. -/
def finish (slots : StoredVisitor) : Except Undecodable (Envelope × Json) := do
  let eventId ← required slots.eventId "event_id"
  let timestamp ← required slots.timestamp "timestamp"
  let correlationId ← required slots.correlationId "correlation_id"
  let causationId ← required slots.causationId "causation_id"
  let data ← required slots.data "data"
  return ({ eventId, timestamp, correlationId, causationId
            triggeringEventId := slots.triggeringEventId.join }, data)

/-- An entry by the field it names. -/
def fieldEntry (entry : String × Json) : Field × Json := (.of entry.1, entry.2)

/-- Read the entries of an object in their order. -/
def visitMap (entries : List (String × Json)) : Except Undecodable (Envelope × Json) := do
  let slots ← (entries.map fieldEntry).foldlM (visitEntry serde) {}
  finish slots

/-- The object an event is stored as: the envelope's fields, then the payload. -/
def storedRef (envelope : Envelope) (data : Json) : List (String × Json) :=
  [("event_id", .str (serde.uuidText envelope.eventId)),
    ("timestamp", .str envelope.timestamp),
    ("correlation_id", .str (serde.uuidText envelope.correlationId)),
    ("causation_id", .str (serde.uuidText envelope.causationId))] ++
  (envelope.triggeringEventId.elim [] fun uuid =>
    [("triggering_event_id", .str (serde.uuidText uuid))]) ++
  [("data", data)]

namespace Envelope

def encode (envelope : Envelope) (data : Json) : List UInt8 :=
  serde.bytes (storedRef serde envelope data)

def decode (bytes : List UInt8) : Except Undecodable (Envelope × Json) :=
  (serde.entries bytes).elim (.error .notAnObject) (visitMap serde)

end Envelope

/-! ## What a pass over the entries takes -/

variable {serde}

/-- One entry is a step of each slot. -/
theorem visitEntry_ok {slots next : StoredVisitor} {entry : Field × Json} :
    visitEntry serde slots entry = .ok next ↔
      Slots.fillNamed .eventId (readUuid serde) (.duplicateField "event_id") slots.eventId entry =
        .ok next.eventId ∧
      Slots.fillNamed .timestamp readString (.duplicateField "timestamp") slots.timestamp entry =
        .ok next.timestamp ∧
      Slots.fillNamed .correlationId (readUuid serde) (.duplicateField "correlation_id")
        slots.correlationId entry = .ok next.correlationId ∧
      Slots.fillNamed .causationId (readUuid serde) (.duplicateField "causation_id")
        slots.causationId entry = .ok next.causationId ∧
      Slots.fillNamed .triggeringEventId (readOptionalUuid serde)
        (.duplicateField "triggering_event_id") slots.triggeringEventId entry =
        .ok next.triggeringEventId ∧
      Slots.fillNamed .data readValue (.duplicateField "data") slots.data entry = .ok next.data := by
  obtain ⟨field, value⟩ := entry
  obtain ⟨eventId, timestamp, correlationId, causationId, triggeringEventId, data⟩ := next
  obtain ⟨eventId', timestamp', correlationId', causationId', triggeringEventId', data'⟩ := slots
  cases field <;>
    simp only [visitEntry, Slots.fillNamed, map_ok, StoredVisitor.mk.injEq, reduceCtorEq, if_true,
      if_false, Except.ok.injEq]
  all_goals grind

/-- A pass over the entries is a pass of each slot. -/
theorem visited_ok {slots final : StoredVisitor} {entries : List (Field × Json)} :
    entries.foldlM (visitEntry serde) slots = .ok final ↔
      entries.foldlM (Slots.fillNamed .eventId (readUuid serde) (.duplicateField "event_id"))
        slots.eventId = .ok final.eventId ∧
      entries.foldlM (Slots.fillNamed .timestamp readString (.duplicateField "timestamp"))
        slots.timestamp = .ok final.timestamp ∧
      entries.foldlM (Slots.fillNamed .correlationId (readUuid serde)
        (.duplicateField "correlation_id")) slots.correlationId = .ok final.correlationId ∧
      entries.foldlM (Slots.fillNamed .causationId (readUuid serde)
        (.duplicateField "causation_id")) slots.causationId = .ok final.causationId ∧
      entries.foldlM (Slots.fillNamed .triggeringEventId (readOptionalUuid serde)
        (.duplicateField "triggering_event_id")) slots.triggeringEventId =
        .ok final.triggeringEventId ∧
      entries.foldlM (Slots.fillNamed .data readValue (.duplicateField "data")) slots.data =
        .ok final.data := by
  induction entries generalizing slots with
  | nil =>
      obtain ⟨eventId, timestamp, correlationId, causationId, triggeringEventId, data⟩ := slots
      obtain ⟨eventId', timestamp', correlationId', causationId', triggeringEventId', data'⟩ := final
      simp [pure, Except.pure]
  | cons entry rest ih =>
      simp only [foldlM_cons_ok]
      constructor
      · rintro ⟨next, visited, passed⟩
        obtain ⟨one, two, three, four, five, six⟩ := visitEntry_ok.mp visited
        obtain ⟨one', two', three', four', five', six'⟩ := ih.mp passed
        exact ⟨⟨_, one, one'⟩, ⟨_, two, two'⟩, ⟨_, three, three'⟩, ⟨_, four, four'⟩,
          ⟨_, five, five'⟩, ⟨_, six, six'⟩⟩
      · rintro ⟨⟨eventId, one, one'⟩, ⟨timestamp, two, two'⟩, ⟨correlationId, three, three'⟩,
          ⟨causationId, four, four'⟩, ⟨triggeringEventId, five, five'⟩, ⟨data, six, six'⟩⟩
        exact ⟨⟨eventId, timestamp, correlationId, causationId, triggeringEventId, data⟩,
          visitEntry_ok.mpr ⟨one, two, three, four, five, six⟩,
          ih.mpr ⟨one', two', three', four', five', six'⟩⟩

/-! ## What is accepted -/

/-- The values that entries give for a field. -/
def given (field : Field) (entries : List (String × Json)) : List Json :=
  Slots.valuesOf field (entries.map fieldEntry)

/-- A field occurs once, and its value reads. -/
def ReadOnce {α : Type} (field : Field) (read : Json → Except Undecodable α)
    (entries : List (String × Json)) (held : α) : Prop :=
  ∃ value, given field entries = [value] ∧ read value = .ok held

theorem required_filled {α : Type} {field : Field} {read : Json → Except Undecodable α}
    {why : Undecodable} {entries : List (String × Json)} {slot : Option α} {held : α} {name : String}
    (passed : (entries.map fieldEntry).foldlM (Slots.fillNamed field read why) none = .ok slot)
    (present : required slot name = .ok held) : ReadOnce field read entries held := by
  rcases Slots.filling_ok.mp passed with ⟨-, rfl⟩ | ⟨value, held', one, opened, rfl⟩
  · cases present
  · cases present
    exact ⟨value, one, opened⟩

theorem filled_of_once {α : Type} {field : Field} {read : Json → Except Undecodable α}
    {why : Undecodable} {entries : List (String × Json)} {held : α}
    (once : ReadOnce field read entries held) :
    (entries.map fieldEntry).foldlM (Slots.fillNamed field read why) none = .ok (some held) := by
  obtain ⟨value, one, opened⟩ := once
  exact Slots.filling_ok.mpr (.inr ⟨value, held, one, opened, rfl⟩)

/-- What an object is read as: each required field occurs once, the optional one
at most once, and they read as the parts of the event. -/
theorem visitMap_ok {entries : List (String × Json)} {envelope : Envelope} {data : Json} :
    visitMap serde entries = .ok (envelope, data) ↔
      ReadOnce .eventId (readUuid serde) entries envelope.eventId ∧
      ReadOnce .timestamp readString entries envelope.timestamp ∧
      ReadOnce .correlationId (readUuid serde) entries envelope.correlationId ∧
      ReadOnce .causationId (readUuid serde) entries envelope.causationId ∧
      ((given .triggeringEventId entries = [] ∧ envelope.triggeringEventId = none) ∨
        ReadOnce .triggeringEventId (readOptionalUuid serde) entries envelope.triggeringEventId) ∧
      ReadOnce .data readValue entries data := by
  unfold visitMap
  rw [bind_ok]
  constructor
  · rintro ⟨slots, visited, finished⟩
    obtain ⟨one, two, three, four, five, six⟩ := visited_ok.mp visited
    unfold finish at finished
    obtain ⟨eventId, haveEvent, finished⟩ := bind_ok.mp finished
    obtain ⟨timestamp, haveTimestamp, finished⟩ := bind_ok.mp finished
    obtain ⟨correlationId, haveCorrelation, finished⟩ := bind_ok.mp finished
    obtain ⟨causationId, haveCausation, finished⟩ := bind_ok.mp finished
    obtain ⟨data', haveData, finished⟩ := bind_ok.mp finished
    cases finished
    refine ⟨required_filled one haveEvent, required_filled two haveTimestamp,
      required_filled three haveCorrelation, required_filled four haveCausation, ?_,
      required_filled six haveData⟩
    rcases Slots.filling_ok.mp five with ⟨none, empty⟩ | ⟨value, held, once, opened, filled⟩
    · exact .inl ⟨none, by rw [empty]; rfl⟩
    · exact .inr ⟨value, once, by rw [opened, filled]; rfl⟩
  · rintro ⟨one, two, three, four, five, six⟩
    have optional : ∃ slot : Option (Option Uuid), (entries.map fieldEntry).foldlM
        (Slots.fillNamed .triggeringEventId (readOptionalUuid serde)
          (.duplicateField "triggering_event_id")) none = .ok slot ∧
        slot.join = envelope.triggeringEventId := by
      rcases five with ⟨none, empty⟩ | once
      · exact ⟨_, Slots.filling_ok.mpr (.inl ⟨none, rfl⟩), empty.symm⟩
      · exact ⟨_, filled_of_once once, rfl⟩
    obtain ⟨slot, filled, joined⟩ := optional
    refine ⟨⟨some envelope.eventId, some envelope.timestamp, some envelope.correlationId,
      some envelope.causationId, slot, some data⟩, visited_ok.mpr ⟨filled_of_once one,
      filled_of_once two, filled_of_once three, filled_of_once four, filled, filled_of_once six⟩, ?_⟩
    change Except.ok (({ envelope with triggeringEventId := slot.join } : Envelope), data) = _
    rw [joined]

/-! ## The objects that are accepted -/

/-- How often a key occurs in an object. -/
def occurrences (name : String) (entries : List (String × Json)) : Nat :=
  (entries.map Prod.fst).count name

variable (serde) in
/-- Whether a value is of the type a field has. -/
def Reads : Field → Json → Prop
  | .eventId, value | .correlationId, value | .causationId, value =>
      ∃ uuid, readUuid serde value = .ok uuid
  | .timestamp, value => ∃ text, readString value = .ok text
  | .triggeringEventId, value => ∃ uuid, readOptionalUuid serde value = .ok uuid
  | .data, _ | .unknown, _ => True

/-- Every required field occurs once, and no known one twice. -/
structure Complete (entries : List (String × Json)) : Prop where
  once : ∀ field name, field.isRequired = true → Field.key field = some name →
    occurrences name entries = 1
  notTwice : ∀ field name, Field.key field = some name → occurrences name entries ≤ 1

theorem length_given (field : Field) {name : String} (named : field.key = some name)
    (entries : List (String × Json)) : (given field entries).length = occurrences name entries := by
  induction entries with
  | nil => rfl
  | cons entry rest ih =>
      unfold given occurrences at ih ⊢
      rw [List.map_cons, List.map_cons, List.count_cons]
      by_cases here : Field.of entry.1 = field
      · have same := (Field.of_eq_iff named).mp here
        rw [Slots.valuesOf_cons_self here, List.length_cons, ih, same, beq_self_eq_true, if_pos rfl]
      · have other : (entry.1 == name) = false :=
          beq_eq_false_iff_ne.mpr fun same => here ((Field.of_eq_iff named).mpr same)
        rw [Slots.valuesOf_cons_ne here, ih, other, if_neg Bool.false_ne_true, Nat.add_zero]

theorem mem_given {field : Field} {value : Json} {entries : List (String × Json)} :
    value ∈ given field entries ↔ ∃ entry ∈ entries, Field.of entry.1 = field ∧ entry.2 = value := by
  unfold given Slots.valuesOf
  rw [List.filterMap_map, List.mem_filterMap]
  refine exists_congr fun entry => and_congr_right fun _ => ?_
  change (if Field.of entry.1 = field then some entry.2 else none) = some value ↔ _
  by_cases here : Field.of entry.1 = field <;> simp [here]

theorem occurrences_of_readOnce {α : Type} {field : Field} {read : Json → Except Undecodable α}
    {entries : List (String × Json)} {held : α} {name : String} (named : field.key = some name)
    (once : ReadOnce field read entries held) : occurrences name entries = 1 := by
  obtain ⟨value, one, -⟩ := once
  rw [← length_given field named, one]
  rfl

theorem reads_of_readOnce {α : Type} {field : Field} {read : Json → Except Undecodable α}
    {entries : List (String × Json)} {held : α} (once : ReadOnce field read entries held)
    {entry : String × Json} (member : entry ∈ entries) (here : Field.of entry.1 = field) :
    ∃ value, read entry.2 = .ok value := by
  obtain ⟨value, one, opened⟩ := once
  have listed : entry.2 ∈ given field entries := mem_given.mpr ⟨entry, member, here, rfl⟩
  rw [one, List.mem_singleton] at listed
  exact ⟨held, listed ▸ opened⟩

theorem readOnce_of_occurrences {α : Type} (field : Field) {read : Json → Except Undecodable α}
    {entries : List (String × Json)} {name : String} (named : field.key = some name)
    (one : occurrences name entries = 1)
    (reads : ∀ entry ∈ entries, Field.of entry.1 = field → ∃ held, read entry.2 = .ok held) :
    ∃ held, ReadOnce field read entries held := by
  rw [← length_given field named] at one
  obtain ⟨value, only⟩ := List.length_eq_one_iff.mp one
  have listed : value ∈ given field entries := by
    rw [only]
    exact List.mem_singleton_self value
  obtain ⟨entry, member, here, rfl⟩ := mem_given.mp listed
  obtain ⟨held, opened⟩ := reads entry member here
  exact ⟨held, entry.2, only, opened⟩

/-- An object is an event when it is complete and each known field is of its type. -/
theorem accepted_iff (entries : List (String × Json)) :
    (∃ stored, visitMap serde entries = .ok stored) ↔
      Complete entries ∧ ∀ entry ∈ entries, Reads serde (.of entry.1) entry.2 := by
  constructor
  · rintro ⟨⟨envelope, data⟩, read⟩
    obtain ⟨one, two, three, four, five, six⟩ := visitMap_ok.mp read
    have atMost : occurrences "triggering_event_id" entries ≤ 1 := by
      rcases five with ⟨none, -⟩ | once
      · rw [← length_given .triggeringEventId rfl, none]
        exact Nat.zero_le 1
      · exact (occurrences_of_readOnce rfl once).le
    have exactly {field : Field} {name : String} (needed : field.isRequired = true)
        (named : field.key = some name) : occurrences name entries = 1 := by
      cases field with
      | eventId => exact occurrences_of_readOnce named one
      | timestamp => exact occurrences_of_readOnce named two
      | correlationId => exact occurrences_of_readOnce named three
      | causationId => exact occurrences_of_readOnce named four
      | data => exact occurrences_of_readOnce named six
      | _ => cases needed
    refine ⟨⟨fun _ _ => exactly, ?_⟩, ?_⟩
    · intro field name named
      cases field with
      | triggeringEventId =>
          cases named
          exact atMost
      | unknown => cases named
      | _ => exact (exactly rfl named).le
    · intro entry member
      cases here : Field.of entry.1 with
      | eventId => exact reads_of_readOnce one member here
      | timestamp => exact reads_of_readOnce two member here
      | correlationId => exact reads_of_readOnce three member here
      | causationId => exact reads_of_readOnce four member here
      | triggeringEventId =>
          rcases five with ⟨none, -⟩ | once
          · have listed : entry.2 ∈ given .triggeringEventId entries :=
              mem_given.mpr ⟨entry, member, here, rfl⟩
            rw [none] at listed
            cases listed
          · exact reads_of_readOnce once member here
      | _ => trivial
  · rintro ⟨complete, readable⟩
    have reads {field : Field} (entry : String × Json) (member : entry ∈ entries)
        (here : Field.of entry.1 = field) : Reads serde field entry.2 :=
      here ▸ readable entry member
    obtain ⟨eventId, one⟩ := readOnce_of_occurrences .eventId rfl
      (complete.once .eventId _ rfl rfl) reads
    obtain ⟨timestamp, two⟩ := readOnce_of_occurrences .timestamp rfl
      (complete.once .timestamp _ rfl rfl) reads
    obtain ⟨correlationId, three⟩ := readOnce_of_occurrences .correlationId rfl
      (complete.once .correlationId _ rfl rfl) reads
    obtain ⟨causationId, four⟩ := readOnce_of_occurrences .causationId rfl
      (complete.once .causationId _ rfl rfl) reads
    obtain ⟨data, six⟩ := readOnce_of_occurrences .data rfl
      (complete.once .data _ rfl rfl) fun entry _ _ => ⟨entry.2, rfl⟩
    have optional : ∃ triggering, (given .triggeringEventId entries = [] ∧ triggering = none) ∨
        ReadOnce .triggeringEventId (readOptionalUuid serde) entries triggering := by
      have atMost := complete.notTwice .triggeringEventId _ rfl
      rcases Nat.le_one_iff_eq_zero_or_eq_one.mp atMost with none_ | one
      · rw [← length_given .triggeringEventId rfl] at none_
        exact ⟨none, .inl ⟨List.eq_nil_of_length_eq_zero none_, rfl⟩⟩
      · obtain ⟨triggering, once⟩ := readOnce_of_occurrences .triggeringEventId rfl one reads
        exact ⟨triggering, .inr once⟩
    obtain ⟨triggering, five⟩ := optional
    exact ⟨(⟨eventId, timestamp, correlationId, causationId, triggering⟩, data),
      visitMap_ok.mpr ⟨one, two, three, four, five, six⟩⟩

/-! ## Round trips and orders -/

variable (serde) in
/-- The serializer reads back what it wrote for one event. -/
structure Serde.ReadsBack (envelope : Envelope) (data : Json) : Prop where
  entries : serde.entries (serde.bytes (storedRef serde envelope data)) =
    some (storedRef serde envelope data)
  eventId : serde.parseUuid (serde.uuidText envelope.eventId) = some envelope.eventId
  correlationId : serde.parseUuid (serde.uuidText envelope.correlationId) =
    some envelope.correlationId
  causationId : serde.parseUuid (serde.uuidText envelope.causationId) = some envelope.causationId
  triggeringEventId : ∀ uuid, envelope.triggeringEventId = some uuid →
    serde.parseUuid (serde.uuidText uuid) = some uuid

theorem readUuid_text {uuid : Uuid} (reads : serde.parseUuid (serde.uuidText uuid) = some uuid) :
    readUuid serde (.str (serde.uuidText uuid)) = .ok uuid := by
  rw [readUuid, reads, Option.elim_some]

theorem visitMap_storedRef {envelope : Envelope} {data : Json}
    (back : serde.ReadsBack envelope data) :
    visitMap serde (storedRef serde envelope data) = .ok (envelope, data) := by
  rw [visitMap_ok]
  obtain ⟨eventId, timestamp, correlationId, causationId, triggering⟩ := envelope
  have ids := readUuid_text back.eventId
  have correlations := readUuid_text back.correlationId
  have causations := readUuid_text back.causationId
  cases triggering with
  | none =>
      exact ⟨⟨_, rfl, ids⟩, ⟨_, rfl, rfl⟩, ⟨_, rfl, correlations⟩, ⟨_, rfl, causations⟩,
        .inl ⟨rfl, rfl⟩, ⟨_, rfl, rfl⟩⟩
  | some uuid =>
      have triggerings : readOptionalUuid serde (.str (serde.uuidText uuid)) = .ok (some uuid) := by
        rw [readOptionalUuid, readUuid_text (back.triggeringEventId uuid rfl)]
        · rfl
        · exact nofun
      exact ⟨⟨_, rfl, ids⟩, ⟨_, rfl, rfl⟩, ⟨_, rfl, correlations⟩, ⟨_, rfl, causations⟩,
        .inr ⟨_, rfl, triggerings⟩, ⟨_, rfl, rfl⟩⟩

/-- The entries that name a field. -/
def knownEntries (entries : List (String × Json)) : List (String × Json) :=
  entries.filter fun entry => Field.of entry.1 != .unknown

theorem given_perm {one other : List (String × Json)}
    (permuted : (knownEntries one).Perm (knownEntries other)) {field : Field}
    (known : field ≠ .unknown) : (given field one).Perm (given field other) := by
  refine Slots.valuesOf_perm (fun field => field != .unknown) ?_ (bne_iff_ne.mpr known)
  rw [List.filter_map, List.filter_map]
  exact permuted.map fieldEntry

theorem ReadOnce.permuted {α : Type} {field : Field} {read : Json → Except Undecodable α} {held : α}
    {one other : List (String × Json)} (permuted : (knownEntries one).Perm (knownEntries other))
    (known : field ≠ .unknown) (once : ReadOnce field read one held) :
    ReadOnce field read other held := by
  obtain ⟨value, only, opened⟩ := once
  have moved := given_perm permuted known
  rw [only] at moved
  exact ⟨value, List.singleton_perm.mp moved |>.symm, opened⟩

/-- An event reads the same in whatever order its entries stand, and whatever
stands between them. -/
theorem visitMap_permuted {one other : List (String × Json)} {stored : Envelope × Json}
    (permuted : (knownEntries one).Perm (knownEntries other))
    (read : visitMap serde one = .ok stored) : visitMap serde other = .ok stored := by
  obtain ⟨envelope, data⟩ := stored
  obtain ⟨one', two, three, four, five, six⟩ := visitMap_ok.mp read
  refine visitMap_ok.mpr ⟨one'.permuted permuted nofun, two.permuted permuted nofun,
    three.permuted permuted nofun, four.permuted permuted nofun, ?_, six.permuted permuted nofun⟩
  rcases five with ⟨none, absent⟩ | once
  · have moved : (given .triggeringEventId one).Perm (given .triggeringEventId other) :=
      given_perm permuted nofun
    rw [none] at moved
    exact .inl ⟨List.nil_perm.mp moved, absent⟩
  · exact .inr (once.permuted permuted nofun)

/-- An object with an id that is a number. -/
def mistyped : List (String × Json) :=
  [("event_id", .int 7), ("timestamp", .str "2026-08-21T00:00:00Z"),
    ("correlation_id", .str "00000000-0000-0000-0000-000000000001"),
    ("causation_id", .str "00000000-0000-0000-0000-000000000001"), ("data", .null)]

theorem mistyped_complete : Complete mistyped := by
  constructor
  · intro field name needed named
    cases field <;> cases named <;> first | decide | cases needed
  · intro field name named
    cases field <;> cases named <;> decide

/-- An object can be complete and yet be refused, for the type of a value. -/
theorem complete_refused : ¬ ∀ (serde : Serde) (entries : List (String × Json)),
    (∃ stored, visitMap serde entries = .ok stored) ↔ Complete entries := by
  intro claimed
  obtain ⟨stored, read⟩ := (claimed ⟨fun _ => [], fun _ => none, fun _ => "", fun _ => none⟩
    mistyped).mpr mistyped_complete
  cases read

namespace Envelope

/-- An event reads back as itself; an object is an event exactly when its
required fields occur once, no known one twice, and each is of its type; and
neither the order of its entries nor what stands between them matters. -/
theorem decode_reads (serde : Serde) :
    (∀ envelope data, serde.ReadsBack envelope data →
      decode serde (encode serde envelope data) = .ok (envelope, data)) ∧
    (∀ bytes entries, serde.entries bytes = some entries →
      ((∃ stored, decode serde bytes = .ok stored) ↔
        Complete entries ∧ ∀ entry ∈ entries, Reads serde (.of entry.1) entry.2)) ∧
    ∀ bytes other one another stored, serde.entries bytes = some one →
      serde.entries other = some another → (knownEntries one).Perm (knownEntries another) →
      decode serde bytes = .ok stored → decode serde other = .ok stored := by
  refine ⟨?_, ?_, ?_⟩
  · intro envelope data back
    unfold decode encode
    rw [back.entries, Option.elim_some, visitMap_storedRef back]
  · intro bytes entries read
    unfold decode
    rw [read, Option.elim_some]
    exact accepted_iff entries
  · intro bytes other one another stored readOne readAnother permuted decoded
    unfold decode at decoded ⊢
    rw [readOne, Option.elim_some] at decoded
    rw [readAnother, Option.elim_some]
    exact visitMap_permuted permuted decoded

def sample : Envelope := ⟨1, "2026-08-21T00:00:00Z", 1, 1, some 1⟩

def sampleId : String := "00000000-0000-0000-0000-000000000001"

def sampleObject : List (String × Json) :=
  [("event_id", .str sampleId), ("timestamp", .str "2026-08-21T00:00:00Z"),
    ("correlation_id", .str sampleId), ("causation_id", .str sampleId),
    ("triggering_event_id", .str sampleId), ("data", .arr [])]

def sampleText : String :=
  "\x7b\"event_id\":\"00000000-0000-0000-0000-000000000001\"," ++
  "\"timestamp\":\"2026-08-21T00:00:00Z\"," ++
  "\"correlation_id\":\"00000000-0000-0000-0000-000000000001\"," ++
  "\"causation_id\":\"00000000-0000-0000-0000-000000000001\"," ++
  "\"triggering_event_id\":\"00000000-0000-0000-0000-000000000001\",\"data\":[]\x7d"

def sampleBytes : List UInt8 := sampleText.toList.map fun char => char.toNat.toUInt8

/-- The serializer, at the one event. -/
def sampleSerde : Serde where
  bytes _ := sampleBytes
  entries bytes := if bytes = sampleBytes then some sampleObject else none
  uuidText _ := sampleId
  parseUuid text := if text = sampleId then some 1 else none

theorem decode_sample :
    decode sampleSerde (encode sampleSerde sample (.arr [])) = .ok (sample, .arr []) := by
  have listed (object : List (String × Json)) :
      sampleSerde.entries (sampleSerde.bytes object) = some sampleObject := by simp [sampleSerde]
  have reads : sampleSerde.parseUuid sampleId = some 1 := by simp [sampleSerde]
  refine (decode_reads sampleSerde).1 sample (.arr []) ⟨listed _, reads, reads, reads, ?_⟩
  rintro _ ⟨⟩
  exact reads

end Envelope

end Hekla.Host
