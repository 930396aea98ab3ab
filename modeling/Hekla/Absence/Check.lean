import Mathlib.Data.List.Sort
import Mathlib.Data.String.Basic
import Hekla.Host.Schema
import Hekla.Library.Descent
import Hekla.Library.Passes
import Hekla.Plan.Affected

/-!
# Fields younger than the log

An event is written whole, so a field that its declaration did not have is in no payload
written under it.  A boot asks every recorded declaration which of the fields declared now it
lacked, and refuses those that do not say what their absence means.  A record has no history
of its own: its fields are asked for wherever an event reaches it.
-/

namespace Hekla.Absence

open Hekla.Library
open Hekla.Host (Json)
open Hekla.Plan (Kind Decl)

/-! ## Declarations -/

/-- The type of a field. -/
inductive Ty where
  | bool
  | int
  | decimal
  | money
  | string
  | uuid
  | timestamp
  | json
  | enum (name : String)
  | subject (name : String)
  | opt (inner : Ty)
  | list (inner : Ty)
  | map (key value : Ty)
  | sealed (inner : Ty) (subject : String)
  | record (name : String)
  deriving DecidableEq

/-- A declared field, and whether a payload without it can still be read. -/
structure Field where
  name : String
  ty : Ty
  answersAbsence : Bool

structure RecordDef where
  name : String
  fields : List Field

/-- An event, by the type the store holds it under. -/
structure EventDef where
  type : String
  fields : List Field

namespace EventDef

/-- The path of an event as it is displayed, which is how the digest names it. -/
def path (declared : EventDef) : String := "@" ++ declared.type

end EventDef

/-- The events and records of a program, each of its own name. -/
structure Program where
  events : List EventDef
  records : List RecordDef
  eventsDistinct : (events.map EventDef.type).Nodup
  recordsDistinct : (records.map RecordDef.name).Nodup

/-- One version of a declaration, as a deploy recorded it. -/
structure Entry where
  kind : Kind
  name : String
  fieldNames : List String

namespace Program

variable (program : Program)

def record (name : String) : Option RecordDef := program.records.find? fun declared => declared.name == name

def event (path : String) : Option EventDef := program.events.find? fun declared => declared.path == path

/-- What a deploy records of the events and records. -/
def entries : List Entry :=
  (program.events.map fun declared => ⟨.event, declared.path, declared.fields.map Field.name⟩) ++
    program.records.map fun declared => ⟨.record, declared.name, declared.fields.map Field.name⟩

/-- The names of the fields declared now under a declaration. -/
def candidate : Decl → Option (List String)
  | (.event, path) => (program.event path).map fun declared => declared.fields.map Field.name
  | (.record, name) => (program.record name).map fun declared => declared.fields.map Field.name
  | _ => none

end Program

/-! ## The check -/

/-- `fields_younger_than_the_log`: every declaration, with a field that it has now and that a
recorded version of it had not. -/
def fieldsYoungerThanTheLog (program : Program) (recorded : List Entry) : List (Decl × String) :=
  recorded.flatMap fun entry =>
    match program.candidate (entry.kind, entry.name) with
    | none => []
    | some now => (now.filter fun name => !entry.fieldNames.contains name).map fun name =>
        ((entry.kind, entry.name), name)

/-- The records that a walk has not entered. -/
def Program.unentered (program : Program) (stack : List String) : Nat :=
  (program.records.filter fun declared => !stack.contains declared.name).length

theorem Program.unentered_lt {program : Program} {stack : List String} {name : String}
    {declared : RecordDef} (found : program.record name = some declared) (fresh : name ∉ stack) :
    program.unentered (name :: stack) < program.unentered stack := by
  have named : declared.name = name := by simpa using List.find?_some found
  have member := List.mem_of_find?_eq_some found
  unfold Program.unentered
  have nested : (program.records.filter fun declared => !(name :: stack).contains declared.name) =
      (program.records.filter fun declared => !stack.contains declared.name).filter
        fun declared => declared.name != name := by
    rw [List.filter_filter]
    congr 1
    funext other
    by_cases same : other.name = name <;> simp [same]
  rw [nested]
  refine List.length_filter_lt_length_iff_exists.mpr ⟨declared, ?_, ?_⟩
  · exact List.mem_filter.mpr ⟨member, by simpa [named] using fresh⟩
  · simp [named]

/-- `records_under`: the records that a type reaches, each with the path it is reached by. -/
def recordsUnder (program : Program) (stack : List String) (path : String) :
    Ty → List (String × String)
  | .opt inner => recordsUnder program stack path inner
  | .list inner => recordsUnder program stack path inner
  | .sealed inner _ => recordsUnder program stack path inner
  | .map _ value => recordsUnder program stack path value
  | .record name =>
      if _entered : name ∈ stack then []
      else
        (path, name) ::
          match _found : program.record name with
          | none => []
          | some declared => declared.fields.flatMap fun field =>
              recordsUnder program (name :: stack) (path ++ "." ++ field.name) field.ty
  | _ => []
termination_by ty => (program.unentered stack, sizeOf ty)
decreasing_by
  all_goals simp_wf
  all_goals first
    | exact .right _ (by omega)
    | exact .left _ _ (Program.unentered_lt ‹_› ‹_›)

/-- An event of the log, with its payload as the envelope holds it. -/
structure Stored where
  type : String
  payload : Json

/-- The log, and why an event of it cannot be read. -/
structure Store where
  events : List Stored
  failure : Stored → Option String

/-- Whether the log holds any event of this type at all. -/
def Store.holdsAny (store : Store) (type : String) : Except String Bool :=
  match store.events.find? fun event => event.type == type with
  | none => .ok false
  | some event =>
      match store.failure event with
      | some why => .error s!"reading the event log: {why}"
      | none => .ok true

def Ty.isSealed : Ty → Bool
  | .sealed _ _ => true
  | _ => false

/-- A field that is younger than the log and does not answer for the payloads without it. -/
def owes (younger : List (Decl × String)) (decl : Decl) (field : Field) : Bool :=
  !field.answersAbsence && younger.contains (decl, field.name)

/-- The paths an event type owes an answer for, each with whether its field is sealed. -/
def owed (program : Program) (younger : List (Decl × String)) (declared : EventDef) :
    List (String × Bool) :=
  declared.fields.flatMap fun field =>
    (if owes younger (.event, declared.path) field then [(field.name, field.ty.isSealed)] else []) ++
      (recordsUnder program [] field.name field.ty).flatMap fun reached =>
        match program.record reached.2 with
        | none => []
        | some nested => (nested.fields.filter (owes younger (.record, reached.2))).map fun field =>
            (reached.1 ++ "." ++ field.name, false)

/-- The order of two paths, where one of a field that is not sealed is first. -/
def PathLe (one other : String × Bool) : Prop :=
  one.1 < other.1 ∨ one.1 = other.1 ∧ (one.2 = true → other.2 = true)

instance : DecidableRel PathLe := fun _ _ => inferInstanceAs (Decidable (_ ∨ _))

/-- A declared event type whose history cannot be read, and the field that is missing. -/
structure Unreadable where
  eventType : String
  path : String
  isSealed : Bool
  deriving DecidableEq

/-- One question per type: whatever was written of it was written without these. -/
def unansweredOf (program : Program) (younger : List (Decl × String)) (store : Store)
    (declared : EventDef) : Except String (List Unreadable) :=
  let paths := owed program younger declared
  if paths.isEmpty then .ok []
  else
    (store.holdsAny declared.type).map fun holds =>
      if holds then (paths.dedup.insertionSort PathLe).map fun path => ⟨declared.type, path.1, path.2⟩
      else []

/-- `unanswered_history` -/
def unansweredHistory (program : Program) (recorded : List Entry) (store : Store) :
    Except String (List Unreadable) :=
  let younger := fieldsYoungerThanTheLog program recorded
  if younger.isEmpty then .ok []
  else (program.events.mapM (unansweredOf program younger store)).map List.flatten

/-! ## The records that are asked for -/

/-- The record that a type holds, inside whatever containers. -/
def Ty.named : Ty → Option String
  | .opt inner => inner.named
  | .list inner => inner.named
  | .sealed inner _ => inner.named
  | .map _ value => value.named
  | .record name => some name
  | _ => none

/-- The records that the fields of a record hold. -/
def Program.under (program : Program) (name : String) : List String :=
  (program.record name).elim [] fun declared => declared.fields.filterMap fun field => field.ty.named

/-- A record is reached from a type: the type holds it, or one that leads to it. -/
def Program.Reaches (program : Program) (ty : Ty) (target : String) : Prop :=
  ∃ name, ty.named = some name ∧
    Relation.ReflTransGen (fun one other => other ∈ program.under one) name target

section Records

variable {program : Program} {target : String}

theorem mem_under {name child : String} : child ∈ program.under name ↔
    ∃ declared, program.record name = some declared ∧
      ∃ field ∈ declared.fields, field.ty.named = some child := by
  unfold Program.under
  cases program.record name with
  | none => simp
  | some declared => simp

/-- A walk that turns back inside a record reports what can be reached without the records
that it is inside of. -/
theorem mem_recordsUnder (stack : List String) (path : String) (ty : Ty) :
    (∃ reached ∈ recordsUnder program stack path ty, reached.2 = target) ↔
      ∃ name, ty.named = some name ∧ Descends program.under stack name target := by
  induction stack, path, ty using recordsUnder.induct program with
  | case1 stack path inner ih =>
      rw [recordsUnder, ih]
      rfl
  | case2 stack path inner ih =>
      rw [recordsUnder, ih]
      rfl
  | case3 stack path inner subject ih =>
      rw [recordsUnder, ih]
      rfl
  | case4 stack path key value ih =>
      rw [recordsUnder, ih]
      rfl
  | case5 stack path name entered =>
      rw [recordsUnder, dif_pos entered]
      refine iff_of_false ?_ ?_
      · rintro ⟨_, listed, _⟩
        cases listed
      · rintro ⟨_, same, descends⟩
        cases same
        exact descends.fresh entered
  | case6 stack path name fresh ih =>
      have only : (∃ other, (Ty.record name).named = some other ∧
          Descends program.under stack other target) ↔ Descends program.under stack name target := by
        constructor
        · rintro ⟨_, same, descends⟩
          cases same
          exact descends
        · exact fun descends => ⟨name, rfl, descends⟩
      rw [only, Descends.iff_of_fresh fresh, recordsUnder, dif_neg fresh, List.exists_mem_cons_iff]
      refine or_congr eq_comm ?_
      constructor
      · rintro ⟨reached, listed, same⟩
        split at listed
        · cases listed
        · next declared found =>
            obtain ⟨field, member, listed⟩ := List.mem_flatMap.mp listed
            obtain ⟨child, named, descends⟩ := (ih declared found field).mp ⟨reached, listed, same⟩
            exact ⟨child, mem_under.mpr ⟨declared, found, field, member, named⟩, descends⟩
      · rintro ⟨child, listed, descends⟩
        obtain ⟨declared, found, field, member, named⟩ := mem_under.mp listed
        obtain ⟨reached, listed, same⟩ := (ih declared found field).mpr ⟨child, named, descends⟩
        refine ⟨reached, ?_, same⟩
        split
        · next none_ => cases none_.symm.trans found
        · next other found' =>
            cases found'.symm.trans found
            exact List.mem_flatMap.mpr ⟨field, member, listed⟩
  | case7 stack path ty noOpt noList noSealed noMap noRecord =>
      have plain : ty.named = none := by
        rw [Ty.named] <;> assumption
      have nothing : recordsUnder program stack path ty = [] := by
        rw [recordsUnder] <;> assumption
      rw [nothing, plain]
      refine iff_of_false ?_ ?_
      · rintro ⟨_, listed, _⟩
        cases listed
      · rintro ⟨_, same, _⟩
        cases same

/-- Every record that a type reaches is reported, and no other. -/
theorem mem_recordsUnder_iff (path : String) (ty : Ty) :
    (∃ reached ∈ recordsUnder program [] path ty, reached.2 = target) ↔ program.Reaches ty target := by
  rw [mem_recordsUnder]
  exact exists_congr fun name => and_congr_right fun _ => Descends.nil_iff

end Records

/-! ## What a check that is silent says -/

section Silent

variable {program : Program} {recorded : List Entry} {store : Store} {younger : List (Decl × String)}

theorem owed_eq_nil {declared : EventDef} (nothing : owed program younger declared = []) {field : Field}
    (member : field ∈ declared.fields) :
    owes younger (.event, declared.path) field = false ∧
      ∀ name nested, program.Reaches field.ty name → program.record name = some nested →
        ∀ inner ∈ nested.fields, owes younger (.record, name) inner = false := by
  have each := List.flatMap_eq_nil_iff.mp nothing field member
  obtain ⟨own, below⟩ := List.append_eq_nil_iff.mp each
  constructor
  · by_contra owing
    rw [if_pos (Bool.not_eq_false _ ▸ owing)] at own
    cases own
  · intro name nested reaches found inner listed
    obtain ⟨reached, reported, rfl⟩ := (mem_recordsUnder_iff field.name field.ty).mpr reaches
    have empty := List.flatMap_eq_nil_iff.mp below reached reported
    rw [found] at empty
    by_contra owing
    have among := List.mem_filter.mpr ⟨listed, Bool.not_eq_false _ ▸ owing⟩
    rw [List.map_eq_nil_iff.mp empty] at among
    cases among

theorem owes_nil (decl : Decl) (field : Field) : owes [] decl field = false := Bool.and_false _

/-- Every field of every event and record answers for its absence, or is not younger than the
log. -/
structure Answered (program : Program) (younger : List (Decl × String)) : Prop where
  events : ∀ declared ∈ program.events, ∀ field ∈ declared.fields,
    owes younger (.event, declared.path) field = false
  records : ∀ declared ∈ program.records, ∀ field ∈ declared.fields,
    owes younger (.record, declared.name) field = false

theorem Answered.of_nil (program : Program) : Answered program [] :=
  ⟨fun _ _ _ _ => owes_nil _ _, fun _ _ _ _ => owes_nil _ _⟩

/-- Where every field answers nothing is owed. -/
theorem Answered.owed (answered : Answered program younger) {declared : EventDef}
    (member : declared ∈ program.events) : owed program younger declared = [] := by
  refine List.flatMap_eq_nil_iff.mpr fun field listed => ?_
  rw [answered.events declared member field listed, if_neg Bool.false_ne_true, List.nil_append]
  refine List.flatMap_eq_nil_iff.mpr fun reached _ => ?_
  cases found : program.record reached.2 with
  | none => rfl
  | some nested =>
      have named : nested.name = reached.2 := by simpa using List.find?_some found
      refine List.map_eq_nil_iff.mpr (List.filter_eq_nil_iff.mpr fun inner listed => ?_)
      rw [← named, answered.records nested (List.mem_of_find?_eq_some found) inner listed]
      exact Bool.false_ne_true

/-- A check reports nothing where every field answers. -/
theorem Answered.silent (answered : Answered program (fieldsYoungerThanTheLog program recorded))
    (store : Store) : unansweredHistory program recorded store = .ok [] := by
  unfold unansweredHistory
  dsimp only
  split
  · rfl
  · have each : ∀ declared ∈ program.events, unansweredOf program
        (fieldsYoungerThanTheLog program recorded) store declared = .ok [] := by
      intro declared member
      simp [unansweredOf, answered.owed member]
    rw [mapM_ok each]
    change Except.ok _ = _
    rw [List.flatten_eq_nil_iff.mpr]
    intro report among
    obtain ⟨_, _, rfl⟩ := List.mem_map.mp among
    rfl

/-- A check that reports nothing finds nothing owed by a type that the log holds. -/
theorem owed_of_silent (silent : unansweredHistory program recorded store = .ok [])
    {declared : EventDef} (member : declared ∈ program.events) {event : Stored}
    (stored : event ∈ store.events) (typed : event.type = declared.type) :
    owed program (fieldsYoungerThanTheLog program recorded) declared = [] := by
  unfold unansweredHistory at silent
  dsimp only at silent
  split at silent
  · next none_ =>
      rw [List.isEmpty_iff.mp none_]
      exact (Answered.of_nil program).owed member
  · obtain ⟨reports, mapped, flat⟩ := map_ok.mp silent
    obtain ⟨report, asked⟩ := ok_of_mapM_ok mapped member
    have among := (mem_of_mapM_ok mapped report).mpr ⟨declared, member, asked⟩
    have nothing : report = [] := List.flatten_eq_nil_iff.mp flat report among
    subst nothing
    unfold unansweredOf at asked
    dsimp only at asked
    split at asked
    · next none_ => exact List.isEmpty_iff.mp none_
    · obtain ⟨holds, found, answered⟩ := map_ok.mp asked
      have held : holds = true := by
        unfold Store.holdsAny at found
        have some_ : (store.events.find? fun event => event.type == declared.type).isSome = true :=
          List.find?_isSome.mpr ⟨event, stored, beq_iff_eq.mpr typed⟩
        obtain ⟨first, first_⟩ := Option.isSome_iff_exists.mp some_
        rw [first_] at found
        dsimp only at found
        split at found
        · cases found
        · exact (Except.ok.inj found).symm
      rw [held, if_pos rfl] at answered
      have empty := List.map_eq_nil_iff.mp answered
      have perm := List.perm_insertionSort PathLe
        (owed program (fieldsYoungerThanTheLog program recorded) declared).dedup
      rw [empty] at perm
      refine List.eq_nil_iff_forall_not_mem.mpr fun path among => ?_
      have left := List.mem_dedup.mpr among
      rw [← perm.nil_eq] at left
      cases left

/-- A field that is not younger than the log is in every recorded version of its declaration. -/
theorem recorded_of_not_younger {decl : Decl} {now : List String} {name : String}
    (declared : program.candidate decl = some now) (member : name ∈ now)
    (old : (decl, name) ∉ fieldsYoungerThanTheLog program recorded) {entry : Entry}
    (listed : entry ∈ recorded) (same : (entry.kind, entry.name) = decl) : name ∈ entry.fieldNames := by
  by_contra lacks
  refine old (List.mem_flatMap.mpr ⟨entry, listed, ?_⟩)
  rw [same, declared]
  refine List.mem_map.mpr ⟨name, List.mem_filter.mpr ⟨member, ?_⟩, rfl⟩
  simpa using lacks

end Silent

end Hekla.Absence
