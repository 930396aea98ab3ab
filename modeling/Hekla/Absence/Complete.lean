import Hekla.Absence.Check

/-!
# Nothing absent is unanswered

Whatever the log holds was written whole under a declaration that was recorded.  A check that
reports nothing says of every record value that was written as that record that it carries
the fields which do not answer for their absence.  A field that has another record now than
it had is not covered: its values do not fit, which is asked of a sample of the log.
-/

namespace Hekla.Absence

open Hekla.Library
open Hekla.Host (Json)
open Hekla.Plan (Kind Decl)

/-! ## Values of a type -/

section Values

-- what a sealed value opens to, while its key is there
variable (opened : Json → Option Json) (program : Program)

/-- A value written whole: every record in it carries every field of its declaration. -/
inductive Whole : Ty → Json → Prop where
  | plain {ty : Ty} {json : Json} : ty.named = none → Whole ty json
  | missing {inner : Ty} : Whole (.opt inner) .null
  | given {inner : Ty} {json : Json} : Whole inner json → Whole (.opt inner) json
  | list {inner : Ty} {items : List Json} : (∀ item ∈ items, Whole inner item) →
      Whole (.list inner) (.arr items)
  | map {key value : Ty} {members : List (String × Json)} : (∀ member ∈ members, Whole value member.2) →
      Whole (.map key value) (.obj members)
  | sealed {inner : Ty} {subject : String} {json : Json} :
      (∀ content, opened json = some content → Whole inner content) → Whole (.sealed inner subject) json
  | record {name : String} {declared : RecordDef} {members : List (String × Json)} :
      program.record name = some declared →
      (∀ field ∈ declared.fields, ((Json.obj members).get field.name).isSome = true) →
      (∀ field ∈ declared.fields, ∀ value, (Json.obj members).get field.name = some value →
        Whole field.ty value) →
      Whole (.record name) (.obj members)

/-- One step into a value. -/
inductive Step where
  | member (name : String)
  | element (index : Nat)
  | content

/-- A value of a type holds a value of a record, where a path leads to in it. -/
inductive Located : Ty → Json → List Step → String → Json → Prop where
  | here {name : String} {members : List (String × Json)} :
      Located (.record name) (.obj members) [] name (.obj members)
  | inside {outer name : String} {declared : RecordDef} {field : Field} {json value object : Json}
      {path : List Step} : program.record outer = some declared → field ∈ declared.fields →
      json.get field.name = some value → Located field.ty value path name object →
      Located (.record outer) json (.member field.name :: path) name object
  | given {inner : Ty} {json object : Json} {path : List Step} {name : String} :
      json.isNull = false → Located inner json path name object →
      Located (.opt inner) json path name object
  | element {inner : Ty} {items : List Json} {index : Nat} {item object : Json} {path : List Step}
      {name : String} : items[index]? = some item → Located inner item path name object →
      Located (.list inner) (.arr items) (.element index :: path) name object
  | entry {keyTy ty : Ty} {json value object : Json} {key name : String} {path : List Step} :
      json.get key = some value → Located ty value path name object →
      Located (.map keyTy ty) json (.member key :: path) name object
  | content {inner : Ty} {subject name : String} {json content object : Json} {path : List Step} :
      opened json = some content → Located inner content path name object →
      Located (.sealed inner subject) json (.content :: path) name object

/-- The payload of an event holds a value of a record, where a path leads to in it. -/
def Holds (declared : EventDef) (payload : Json) (path : List Step) (name : String) (object : Json) : Prop :=
  ∃ field ∈ declared.fields, ∃ value rest, path = .member field.name :: rest ∧
    payload.get field.name = some value ∧ Located opened program field.ty value rest name object

/-- An event written whole, as a program declares it. -/
def Written (event : Stored) : Prop :=
  ∃ declared ∈ program.events, declared.type = event.type ∧ ∀ field ∈ declared.fields,
    ∃ value, event.payload.get field.name = some value ∧ Whole opened program field.ty value

/-- The program had a record at a path of an event, of this name. -/
def Had (event : Stored) (path : List Step) (name : String) (object : Json) : Prop :=
  ∃ declared ∈ program.events, declared.type = event.type ∧
    Holds opened program declared event.payload path name object

/-- A payload carries every field that does not answer for its absence, and so does every
record in it that is asked about. -/
structure Carries (declared : EventDef) (payload : Json) (asked : List Step → String → Json → Prop) :
    Prop where
  own : ∀ field ∈ declared.fields, field.answersAbsence = false → (payload.get field.name).isSome = true
  nested : ∀ path name object, Holds opened program declared payload path name object →
    asked path name object → ∀ inner, program.record name = some inner →
      ∀ field ∈ inner.fields, field.answersAbsence = false → (object.get field.name).isSome = true

end Values

section Placed

variable {opened : Json → Option Json} {program : Program} {ty : Ty} {json object : Json}
  {path : List Step} {name : String}

/-- A value holds a record only where its type reaches it. -/
theorem Located.reaches (located : Located opened program ty json path name object) :
    program.Reaches ty name := by
  induction located with
  | @here name members => exact ⟨name, rfl, .refl⟩
  | @inside outer name declared field json value object path found member _ _ ih =>
      obtain ⟨child, named, reached⟩ := ih
      exact ⟨outer, rfl, .head (mem_under.mpr ⟨declared, found, field, member, named⟩) reached⟩
  | given _ _ ih => exact ih
  | element _ _ ih => exact ih
  | entry _ _ ih => exact ih
  | content _ _ ih => exact ih

theorem mem_of_get {members : List (String × Json)} {key : String} {value : Json}
    (found : (Json.obj members).get key = some value) : ∃ member ∈ members, member.2 = value := by
  unfold Json.get at found
  obtain ⟨member, here, rfl⟩ := Option.map_eq_some_iff.mp found
  exact ⟨member, List.mem_of_find?_eq_some here, rfl⟩

/-- A record in a value that was written whole carries every field of its declaration. -/
theorem Whole.carries (whole : Whole opened program ty json)
    (located : Located opened program ty json path name object) :
    ∃ declared, program.record name = some declared ∧
      ∀ field ∈ declared.fields, (object.get field.name).isSome = true := by
  induction located with
  | @here name members =>
      cases whole with
      | plain bare => cases bare
      | record found carries _ => exact ⟨_, found, carries⟩
  | inside found member present _ ih =>
      cases whole with
      | plain bare => cases bare
      | record found' _ inner =>
          cases found.symm.trans found'
          exact ih (inner _ member _ present)
  | given solid below ih =>
      cases whole with
      | plain bare =>
          obtain ⟨_, named, _⟩ := below.reaches
          cases named.symm.trans bare
      | missing => cases solid
      | given inner => exact ih inner
  | element listed below ih =>
      cases whole with
      | plain bare =>
          obtain ⟨_, named, _⟩ := below.reaches
          cases named.symm.trans bare
      | list each => exact ih (each _ (List.mem_of_getElem? listed))
  | entry found below ih =>
      cases whole with
      | plain bare =>
          obtain ⟨_, named, _⟩ := below.reaches
          cases named.symm.trans bare
      | map each =>
          obtain ⟨member, listed, rfl⟩ := mem_of_get found
          exact ih (each member listed)
  | content opens below ih =>
      cases whole with
      | plain bare =>
          obtain ⟨_, named, _⟩ := below.reaches
          cases named.symm.trans bare
      | sealed inner => exact ih (inner _ opens)

theorem Holds.reaches {declared : EventDef} {payload : Json}
    (holds : Holds opened program declared payload path name object) :
    ∃ field ∈ declared.fields, program.Reaches field.ty name := by
  obtain ⟨field, member, _, _, _, _, located⟩ := holds
  exact ⟨field, member, located.reaches⟩

theorem Written.carries {event : Stored} (written : Written opened program event)
    (had : Had opened program event path name object) :
    ∃ declared, program.record name = some declared ∧
      ∀ field ∈ declared.fields, (object.get field.name).isSome = true := by
  obtain ⟨declared, member, typed, whole⟩ := written
  obtain ⟨other, member', typed', field, listed, value, rest, _, found, located⟩ := had
  obtain rfl := List.inj_on_of_nodup_map program.eventsDistinct member member' (typed.trans typed'.symm)
  obtain ⟨value', found', whole⟩ := whole field listed
  cases found.symm.trans found'
  exact whole.carries located

end Placed

/-! ## What a deploy records -/

section Recorded

variable {program : Program}

theorem event_of_mem {declared : EventDef} (member : declared ∈ program.events) :
    program.event declared.path = some declared := by
  unfold Program.event
  have some_ : (program.events.find? fun other => other.path == declared.path).isSome = true :=
    List.find?_isSome.mpr ⟨declared, member, beq_self_eq_true _⟩
  obtain ⟨first, found⟩ := Option.isSome_iff_exists.mp some_
  have same : first.path = declared.path := by simpa using List.find?_some found
  have typed : first.type = declared.type := by
    have spelled := congrArg String.toList same
    unfold EventDef.path at spelled
    rw [String.toList_append, String.toList_append] at spelled
    exact String.toList_inj.mp (List.append_cancel_left spelled)
  rw [found, List.inj_on_of_nodup_map program.eventsDistinct (List.mem_of_find?_eq_some found) member typed]

theorem mem_entries_event {declared : EventDef} (member : declared ∈ program.events) :
    ⟨.event, declared.path, declared.fields.map Field.name⟩ ∈ program.entries :=
  List.mem_append_left _ (List.mem_map_of_mem member)

theorem mem_entries_record {name : String} {declared : RecordDef}
    (found : program.record name = some declared) :
    ⟨.record, name, declared.fields.map Field.name⟩ ∈ program.entries := by
  have named : declared.name = name := by simpa using List.find?_some found
  exact List.mem_append_right _
    (List.mem_map.mpr ⟨declared, List.mem_of_find?_eq_some found, by rw [named]⟩)

theorem not_younger {younger : List (Decl × String)} {decl : Decl} {field : Field}
    (silent : owes younger decl field = false) (unanswered : field.answersAbsence = false) :
    (decl, field.name) ∉ younger := by
  unfold owes at silent
  rw [unanswered, Bool.not_false, Bool.true_and] at silent
  exact fun member => Bool.false_ne_true (silent.symm.trans (List.contains_iff_mem.mpr member))

end Recorded

/-- A program about which the check reports nothing finds every field that does not answer for
its absence in every payload that was written whole under a recorded declaration, and in every
record there that was written as that record.  The records it asks about are all that a type
reaches. -/
theorem silent_carries (opened : Json → Option Json) (program : Program) (recorded : List Entry)
    (earlier : List Program) (store : Store)
    (kept : ∀ was ∈ earlier, ∀ entry ∈ was.entries, entry ∈ recorded)
    (silent : unansweredHistory program recorded store = .ok []) :
    (∀ declared ∈ program.events, ∀ event ∈ store.events, event.type = declared.type →
      ∀ was ∈ earlier, Written opened was event →
        Carries opened program declared event.payload (Had opened was event)) ∧
    ∀ path ty name, (∃ reached ∈ recordsUnder program [] path ty, reached.2 = name) ↔
      program.Reaches ty name := by
  refine ⟨?_, fun path ty name => mem_recordsUnder_iff path ty⟩
  intro declared member event stored typed was among whole
  have nothing := owed_of_silent silent member stored typed
  constructor
  · intro field listed unanswered
    obtain ⟨before, member', typed', carried⟩ := whole
    have old := not_younger (owed_eq_nil nothing listed).1 unanswered
    have same : before.path = declared.path := by
      unfold EventDef.path
      rw [typed', typed]
    have now : program.candidate (.event, declared.path) = some (declared.fields.map Field.name) := by
      change (program.event declared.path).map _ = _
      rw [event_of_mem member]
      rfl
    have named := recorded_of_not_younger now (List.mem_map_of_mem listed) old
      (kept was among _ (mem_entries_event member')) (by rw [same])
    obtain ⟨field', listed', name⟩ := List.mem_map.mp named
    obtain ⟨value, found, _⟩ := carried field' listed'
    rw [← name, found]
    rfl
  · intro path name object holds had inner found field listed unanswered
    obtain ⟨outer, above, reaches⟩ := holds.reaches
    have old := not_younger ((owed_eq_nil nothing above).2 name inner reaches found field listed) unanswered
    obtain ⟨before, found', carried⟩ := whole.carries had
    have now : program.candidate (.record, name) = some (inner.fields.map Field.name) := by
      change (program.record name).map _ = _
      rw [found]
      rfl
    have named := recorded_of_not_younger now (List.mem_map_of_mem listed) old
      (kept was among _ (mem_entries_record found')) rfl
    obtain ⟨field', listed', same⟩ := List.mem_map.mp named
    rw [← same]
    exact carried field' listed'

/-! ## Orders with a note, and with a parcel -/

/-- Orders with a detail of a record, which has one field. -/
def detailed (record field : String) : Program where
  events := [⟨"order.placed", [⟨"detail", .record record, false⟩]⟩]
  records := [⟨record, [⟨field, .string, false⟩]⟩]
  eventsDistinct := by simp
  recordsDistinct := by simp

/-- An order with a note of its kind. -/
def gift : Json := .obj [("kind", .str "gift")]

def notedOrder : Stored := ⟨"order.placed", .obj [("detail", gift)]⟩

def notedOrders : Store := ⟨[notedOrder], fun _ => none⟩

theorem notedOrder_written : Written (fun _ => none) (detailed "Note" "kind") notedOrder := by
  refine ⟨_, List.mem_cons_self, rfl, fun field member => ?_⟩
  obtain rfl := List.mem_singleton.mp member
  refine ⟨gift, rfl, .record rfl ?_ ?_⟩
  · intro field member
    obtain rfl := List.mem_singleton.mp member
    rfl
  · intro field member value _
    obtain rfl := List.mem_singleton.mp member
    exact .plain rfl

/-- The same orders later: one may have been paid, and a note may be signed. -/
def signed : Program where
  events := [⟨"order.placed", [⟨"detail", .record "Note", false⟩, ⟨"paid", .opt .money, true⟩]⟩]
  records := [⟨"Note", [⟨"kind", .string, false⟩, ⟨"from", .opt .string, true⟩]⟩]
  eventsDistinct := by simp
  recordsDistinct := by simp

def deployed : List Entry := (detailed "Note" "kind").entries ++ signed.entries

/-- Two fields are younger than the order, and answer for it: it carries its detail, and the
note in it carries its kind. -/
theorem signed_carries :
    fieldsYoungerThanTheLog signed deployed =
        [((.event, "@order.placed"), "paid"), ((.record, "Note"), "from")] ∧
      Carries (fun _ => none) signed
        ⟨"order.placed", [⟨"detail", .record "Note", false⟩, ⟨"paid", .opt .money, true⟩]⟩
        notedOrder.payload (Had (fun _ => none) (detailed "Note" "kind") notedOrder) := by
  have younger : fieldsYoungerThanTheLog signed deployed =
      [((.event, "@order.placed"), "paid"), ((.record, "Note"), "from")] := by decide
  have answered : Answered signed (fieldsYoungerThanTheLog signed deployed) := by
    rw [younger]
    exact ⟨by decide, by decide⟩
  refine ⟨younger, ?_⟩
  refine (silent_carries (fun _ => none) signed deployed [detailed "Note" "kind"] notedOrders ?_
    (answered.silent _)).1 _ List.mem_cons_self notedOrder List.mem_cons_self rfl (detailed "Note" "kind")
    List.mem_cons_self notedOrder_written
  intro was among entry listed
  obtain rfl := List.mem_singleton.mp among
  exact List.mem_append_left _ listed

/-- Where the detail is a parcel now, of a record that was not declared before, nothing is
reported, and the order that is there does not carry its weight. -/
theorem retyped_detail_unanswered :
    (∀ entry ∈ (detailed "Note" "kind").entries, entry ∈ (detailed "Note" "kind").entries) ∧
      (∀ event ∈ notedOrders.events, Written (fun _ => none) (detailed "Note" "kind") event) ∧
      unansweredHistory (detailed "Parcel" "weight") (detailed "Note" "kind").entries notedOrders = .ok [] ∧
      ¬Carries (fun _ => none) (detailed "Parcel" "weight")
        ⟨"order.placed", [⟨"detail", .record "Parcel", false⟩]⟩ notedOrder.payload fun _ _ _ => True := by
  refine ⟨fun _ listed => listed, ?_, by decide, fun carries => ?_⟩
  · intro event member
    obtain rfl := List.mem_singleton.mp member
    exact notedOrder_written
  · have holds : Holds (fun _ => none) (detailed "Parcel" "weight")
        ⟨"order.placed", [⟨"detail", .record "Parcel", false⟩]⟩ notedOrder.payload [.member "detail"]
        "Parcel" gift := ⟨_, List.mem_cons_self, gift, [], rfl, rfl, .here⟩
    have carried := carries.nested _ _ _ holds trivial _ rfl ⟨"weight", .string, false⟩
      List.mem_cons_self rfl
    exact absurd carried (by decide)

end Hekla.Absence
