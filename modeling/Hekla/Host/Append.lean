import Hekla.Host.Schema

/-!
# Appending through the host

The language decides what is appended and against which boundary; the host
lowers the events to what is stored and adds a clause of its own, that no event
of the log carries the tag this append is guarded by.  The store lands a batch
whole, or refuses it whole for one of the clauses.
-/

namespace Hekla.Host

open Hekla.Library

/-! ## The store -/

/-- The causation of one command execution. -/
structure CommandContext where
  correlationId : String
  causationId : String
  triggeringEventId : Option String := none
  deriving DecidableEq

structure StoredEvent where
  eventType : String
  tags : List String
  envelope : CommandContext
  data : List (String × Json) := []

/-- Some event types, or any when none is named, with all of the given tags. -/
structure QueryItem where
  types : List String := []
  tags : List String := []

def QueryItem.accepts (item : QueryItem) (event : StoredEvent) : Bool :=
  (item.types.isEmpty || item.types.contains event.eventType) &&
    item.tags.all fun tag => event.tags.contains tag

abbrev Query := List QueryItem

def Query.accepts (query : Query) (event : StoredEvent) : Bool :=
  query.any fun item => item.accepts event

structure PositionRange where
  first : Nat
  last : Nat
  deriving DecidableEq

/-- The clause a refused append failed. -/
inductive ConflictClause where
  | boundary
  | existence
  deriving DecidableEq

inductive AppendError where
  | shutdown
  | conflict (clause : ConflictClause)

/-- An append-only log.  Positions start at one; `reports` is the clause the store
names when an append fails both. -/
structure Store where
  log : List StoredEvent := []
  draining : Bool := false
  follower : Bool := false
  reports : ConflictClause := .existence

namespace Store

def head (store : Store) : Nat := store.log.length

/-- The events of a query with their positions, from a position on. -/
def readFrom (query : Query) : Nat → List StoredEvent → List (Nat × StoredEvent)
  | _, [] => []
  | position, event :: rest =>
      if query.accepts event then (position, event) :: readFrom query (position + 1) rest
      else readFrom query (position + 1) rest

def read (store : Store) (query : Query) : List (Nat × StoredEvent) := readFrom query 1 store.log

/-- Some event after the position matches the query. -/
def exists_after (store : Store) (query : Query) (after : Nat) : Bool :=
  (store.log.drop after).any query.accepts

def append (store : Store) (batch : List StoredEvent) (boundary : Query) (after : Nat)
    (existence : Option Query) : Except AppendError (Store × PositionRange) :=
  if store.draining then .error .shutdown
  else
    match existence.any (store.exists_after · 0), store.exists_after boundary after with
    | true, true => .error (.conflict store.reports)
    | true, false => .error (.conflict .existence)
    | false, true => .error (.conflict .boundary)
    | false, false =>
        .ok ({ store with log := store.log ++ batch },
          ⟨store.head + 1, store.head + batch.length⟩)

theorem readFrom_append (query : Query) (position : Nat) (first second : List StoredEvent) :
    readFrom query position (first ++ second) =
      readFrom query position first ++ readFrom query (position + first.length) second := by
  induction first generalizing position with
  | nil => rfl
  | cons event rest ih =>
      have next : position + 1 + rest.length = position + (event :: rest).length := by
        rw [List.length_cons]
        omega
      simp only [List.cons_append, readFrom]
      rw [ih, next]
      split <;> rfl

theorem readFrom_none {query : Query} {events : List StoredEvent} (position : Nat)
    (none : ∀ event ∈ events, query.accepts event = false) :
    readFrom query position events = [] := by
  induction events generalizing position with
  | nil => rfl
  | cons event rest ih =>
      simp only [readFrom]
      rw [none event List.mem_cons_self]
      exact ih _ fun later member => none later (List.mem_cons_of_mem _ member)

/-- An append the store takes failed no clause, and a duplicate it reports is one. -/
theorem append_cases (store : Store) (batch : List StoredEvent) (boundary : Query) (after : Nat)
    (existence : Option Query) :
    store.append batch boundary after existence = .error .shutdown ∨
      store.append batch boundary after existence = .error (.conflict .boundary) ∨
      (existence.any (store.exists_after · 0) = true ∧
        store.append batch boundary after existence = .error (.conflict .existence)) ∨
      (existence.any (store.exists_after · 0) = false ∧
        store.append batch boundary after existence =
          .ok ({ store with log := store.log ++ batch },
            ⟨store.head + 1, store.head + batch.length⟩)) := by
  unfold append
  cases store.draining with
  | true => exact .inl rfl
  | false =>
      right
      cases existence.any (store.exists_after · 0) with
      | false =>
          cases store.exists_after boundary after with
          | false => exact .inr (.inr ⟨rfl, rfl⟩)
          | true => exact .inl rfl
      | true =>
          cases store.exists_after boundary after with
          | false => exact .inr (.inl ⟨rfl, rfl⟩)
          | true =>
              cases reported : store.reports with
              | boundary => exact .inl rfl
              | existence => exact .inr (.inl ⟨rfl, rfl⟩)

end Store

/-! ## The host of one run -/

/-- A field's value: its JSON, and whether it was moved from where it was sealed. -/
structure Value where
  json : Json
  moved : Bool := false

/-- One event a program emits. -/
structure Event where
  path : List String
  fields : Table String Value := ∅

def eventType (path : List String) : String := ".".intercalate path

/-- What the language wants unread: events of a type with these field texts. -/
structure Predicate where
  event : List String
  filters : List (String × String) := []

structure AppendCondition where
  slices : List Predicate := []
  after : Nat := 0

inductive HostError where
  | host (message : String)
  | conflict (after : Nat)
  deriving DecidableEq

/-- One event as a response reports it. -/
structure EmittedEvent where
  eventType : String
  data : List (String × Json)
  tags : List TagPair

/-- One run's world.  `storedSeal` is what the key store answers for a sealed
field, and `call` the journal identity of the call being made, in an effect. -/
structure HeklaHost where
  events : EventDefs
  storedSeal : Option (List (String × String) → String → Value → Except String String) := none
  ctx : CommandContext
  idemTag : Option String := none
  call : Option (Option String) := none
  appended : Option PositionRange := none
  emitted : List EmittedEvent := []
  unavailable : Option String := none
  duplicated : Bool := false
  isSealed : Bool := false

/-- The plaintext of a scalar, or nothing for a container or a seal. -/
def plaintextScalar (value : Value) : Option String :=
  if value.moved then none else scalarToString value.json

/-- Every scalar field's plaintext, by field name. -/
def subjectIds (declared : EventDef) (event : Event) : Table String String :=
  declared.fields.foldl (fun ids field =>
    match (event.fields.get field.1).bind plaintextScalar with
    | some text => ids.set field.1 text
    | none => ids) ∅

namespace HeklaHost

/-- The tag this append is guarded against, if anything guards it: the request's
key, or the identity of the call an effect is making. -/
def idempotencyTag (host : HeklaHost) : Option String :=
  match host.idemTag with
  | some tag => some tag
  | none => host.call.join

/-- One slice as a query item. -/
def itemOf (slice : Predicate) : QueryItem :=
  { types := [eventType slice.event]
    tags := slice.filters.map fun filter => filter.1 ++ ":" ++ filter.2 }

def queryOf (slices : List Predicate) : Query := slices.map itemOf

/-- An item matching any event that carries a tag. -/
def idemItem (tag : String) : QueryItem := { tags := [tag] }

/-- One field as it is stored, with the tag it becomes. -/
def lowerField (host : HeklaHost) (type : String) (ids : Table String String) (event : Event)
    (field : String × FieldMeta) :
    Except HostError (Option (String × Json) × Option TagPair) :=
  match event.fields.get field.1 with
  | none => .ok (none, none)
  | some value =>
      match field.2.sealedUnder with
      | none =>
          let tag := if field.2.indexed then
            (scalarToString value.json).map fun text => (field.1, some text) else none
          .ok (some (field.1, value.json), tag)
      | some filed =>
          -- An absent optional was never encrypted.
          if value.json.isNull then .ok (some (field.1, .null), none)
          else
            match host.storedSeal with
            | none =>
                .error (.host (s!"field `{field.1}` is sealed under `{filed.subject}` " ++
                  "but no master key is configured"))
            | some storedSeal =>
                match filed.resolve ids with
                | none =>
                    .error (.host (s!"event `{type}` does not carry every id `{filed.subject}`'s " ++
                      "key is filed under: it needs " ++ filed.needs))
                | some chain =>
                    match storedSeal chain field.1 value with
                    | .error message => .error (.host message)
                    | .ok ciphertext =>
                        .ok (some (field.1, .str ciphertext),
                          if field.2.indexed then some (field.1, some ciphertext) else none)

/-- Every declared field in turn: the payload and the derived tags. -/
def lowerFields (host : HeklaHost) (type : String) (ids : Table String String) (event : Event) :
    List (String × FieldMeta) → Except HostError (List (String × Json) × List TagPair)
  | [] => .ok ([], [])
  | field :: rest =>
      match lowerField host type ids event field with
      | .error error => .error error
      | .ok (entry, tag) =>
          match lowerFields host type ids event rest with
          | .error error => .error error
          | .ok (payload, derived) => .ok (entry.toList ++ payload, tag.toList ++ derived)

/-- One emitted event as it is stored, and as a response reports it. -/
def lower (host : HeklaHost) (event : Event) : Except HostError (StoredEvent × EmittedEvent) :=
  let type := eventType event.path
  match host.events.get type with
  | none => .error (.host s!"event type `{type}` is not declared")
  | some declared =>
      match host.lowerFields type (subjectIds declared event) event declared.fields with
      | .error error => .error error
      | .ok (payload, derived) =>
          let extra := correlationTag host.ctx.correlationId :: host.idemTag.toList
          .ok (⟨type, buildTags derived extra, host.ctx, payload⟩, ⟨type, payload, derived⟩)

/-- A batch in order, refused at the first event that cannot be lowered. -/
def lowerAll (host : HeklaHost) :
    List Event → Except HostError (List StoredEvent × List EmittedEvent)
  | [] => .ok ([], [])
  | event :: rest =>
      match host.lower event with
      | .error error => .error error
      | .ok (stored, reported) =>
          match host.lowerAll rest with
          | .error error => .error error
          | .ok (built, emitted) => .ok (stored :: built, reported :: emitted)

/-- Append what a program emitted. -/
def append (host : HeklaHost) (store : Store) (events : List Event) (condition : AppendCondition) :
    HeklaHost × Store × Except HostError Unit :=
  if host.isSealed then
    (host, store, .error (.host "a sealed replay tried to append to the log"))
  else if store.follower then
    (host, store,
      .error (.host "a handler needs a log it can append to, and this one is open for reading only"))
  else if events.isEmpty then (host, store, .ok ())
  else
    match host.lowerAll events with
    | .error error => (host, store, .error error)
    | .ok (built, emitted) =>
        let existence := host.idempotencyTag.map fun tag => [idemItem tag]
        match store.append built (queryOf condition.slices) condition.after existence with
        | .ok (store', range) =>
            ({ host with appended := some range, emitted }, store', .ok ())
        | .error .shutdown =>
            let message := "the write coordinator is shutting down; retry"
            ({ host with unavailable := some message }, store, .error (.host message))
        -- A duplicate of this very request: not a conflict to retry.
        | .error (.conflict .existence) =>
            ({ host with duplicated := true }, store,
              .error (.host "this request already committed"))
        | .error (.conflict .boundary) => (host, store, .error (.conflict condition.after))

/-! ## What lowering yields -/

/-- Derived tags are named after declared fields, one each, and all have a text. -/
structure Derived (declared : List (String × FieldMeta)) (derived : List TagPair) : Prop where
  names : (derived.map Prod.fst).Sublist (declared.map Prod.fst)
  texts : ∀ pair ∈ derived, ∃ text, pair = (pair.1, some text)

theorem lowerField_tag {host : HeklaHost} {type : String} {ids : Table String String}
    {event : Event} {field : String × FieldMeta} {entry : Option (String × Json)}
    {tag : Option TagPair} (lowered : host.lowerField type ids event field = .ok (entry, tag)) :
    tag = none ∨ ∃ text, tag = some (field.1, some text) := by
  unfold lowerField at lowered
  split at lowered
  · cases lowered
    exact .inl rfl
  · split at lowered
    · cases lowered
      split
      · next value _ _ _ _ =>
          cases scalarToString value.json with
          | none => exact .inl rfl
          | some text => exact .inr ⟨text, rfl⟩
      · exact .inl rfl
    · split at lowered
      · cases lowered
        exact .inl rfl
      · split at lowered
        · cases lowered
        · split at lowered
          · cases lowered
          · split at lowered
            · cases lowered
            · next ciphertext _ =>
                cases lowered
                split
                · exact .inr ⟨ciphertext, rfl⟩
                · exact .inl rfl

theorem lowerFields_derived {host : HeklaHost} {type : String} {ids : Table String String}
    {event : Event} {fields : List (String × FieldMeta)} {payload : List (String × Json)}
    {derived : List TagPair}
    (lowered : host.lowerFields type ids event fields = .ok (payload, derived)) :
    Derived fields derived := by
  induction fields generalizing payload derived with
  | nil =>
      cases lowered
      exact ⟨List.Sublist.refl _, fun pair member => by cases member⟩
  | cons field rest ih =>
      simp only [lowerFields] at lowered
      split at lowered
      · cases lowered
      · next entry tag first =>
          split at lowered
          · cases lowered
          · next payload' derived' others =>
              cases lowered
              obtain ⟨names, texts⟩ := ih others
              rcases lowerField_tag first with rfl | ⟨text, rfl⟩
              · exact ⟨names.cons _, texts⟩
              · refine ⟨names.cons_cons _, ?_⟩
                intro pair member
                rcases List.mem_cons.mp member with rfl | later
                · exact ⟨text, rfl⟩
                · exact texts pair later

/-- What a stored event and its report have in common. -/
structure Lowers (host : HeklaHost) (stored : StoredEvent) (reported : EmittedEvent) : Prop where
  type : reported.eventType = stored.eventType
  envelope : stored.envelope = host.ctx
  tags : stored.tags =
    buildTags reported.tags (correlationTag host.ctx.correlationId :: host.idemTag.toList)
  declared : ∃ declared, host.events.get stored.eventType = some declared ∧
    Derived declared.fields reported.tags

theorem lower_spec {host : HeklaHost} {event : Event} {stored : StoredEvent}
    {reported : EmittedEvent} (lowered : host.lower event = .ok (stored, reported)) :
    host.Lowers stored reported := by
  unfold lower at lowered
  dsimp only at lowered
  split at lowered
  · cases lowered
  · next declared found =>
      split at lowered
      · cases lowered
      · next payload derived fields =>
          cases lowered
          exact ⟨rfl, rfl, rfl, declared, found, lowerFields_derived fields⟩

theorem lowerAll_spec {host : HeklaHost} {events : List Event} {built : List StoredEvent}
    {emitted : List EmittedEvent} (lowered : host.lowerAll events = .ok (built, emitted)) :
    List.Forall₂ host.Lowers built emitted ∧ built.length = events.length := by
  induction events generalizing built emitted with
  | nil =>
      cases lowered
      exact ⟨.nil, rfl⟩
  | cons event rest ih =>
      simp only [lowerAll] at lowered
      split at lowered
      · cases lowered
      · next stored reported first =>
          split at lowered
          · cases lowered
          · next built' emitted' others =>
              cases lowered
              obtain ⟨lowers, length⟩ := ih others
              exact ⟨.cons (lower_spec first) lowers, congrArg (· + 1) length⟩

theorem exists_report {host : HeklaHost} {built : List StoredEvent} {emitted : List EmittedEvent}
    (lowers : List.Forall₂ host.Lowers built emitted) {event : StoredEvent}
    (member : event ∈ built) : ∃ reported, host.Lowers event reported := by
  induction lowers with
  | nil => cases member
  | cons first _ ih =>
      rcases List.mem_cons.mp member with rfl | later
      · exact ⟨_, first⟩
      · exact ih later

/-! ## What an append comes to -/

/-- The outcomes of an append, with what each says of the log before it. -/
inductive Appends (host : HeklaHost) (store : Store) (events : List Event)
    (condition : AppendCondition) : HeklaHost × Store × Except HostError Unit → Prop where
  | refused (error : HostError) : Appends host store events condition (host, store, .error error)
  | nothing (empty : events = []) : Appends host store events condition (host, store, .ok ())
  | landed {built : List StoredEvent} {emitted : List EmittedEvent} (emits : events ≠ [])
      (some_events : built ≠ []) (lowered : List.Forall₂ host.Lowers built emitted)
      (unguarded : ∀ tag, host.idempotencyTag = some tag →
        ∀ event ∈ store.log, tag ∉ event.tags) :
      Appends host store events condition
        ({ host with
            appended := some ⟨store.head + 1, store.head + built.length⟩
            emitted },
          { store with log := store.log ++ built }, .ok ())
  | shutdown (message : String) :
      Appends host store events condition
        ({ host with unavailable := some message }, store, .error (.host message))
  | duplicated {tag : String} (message : String) (guard : host.idempotencyTag = some tag)
      (present : ∃ event ∈ store.log, tag ∈ event.tags) :
      Appends host store events condition
        ({ host with duplicated := true }, store, .error (.host message))

theorem idemItem_accepts (tag : String) (event : StoredEvent) :
    Query.accepts [idemItem tag] event = true ↔ tag ∈ event.tags := by
  simp [Query.accepts, QueryItem.accepts, idemItem]

theorem append_spec (host : HeklaHost) (store : Store) (events : List Event)
    (condition : AppendCondition) :
    Appends host store events condition (host.append store events condition) := by
  unfold append
  split
  · exact .refused _
  split
  · exact .refused _
  split
  · next empty => exact .nothing (List.isEmpty_iff.mp empty)
  next some_events =>
  split
  · exact .refused _
  next built emitted lowered =>
  obtain ⟨lowers, length⟩ := lowerAll_spec lowered
  have guarded (failed : (host.idempotencyTag.map fun tag => [idemItem tag]).any
      (store.exists_after · 0) = true) : ∃ tag, host.idempotencyTag = some tag ∧
        ∃ event ∈ store.log, tag ∈ event.tags := by
    obtain ⟨query, clause, found⟩ := (Option.any_eq_true _ _).mp failed
    obtain ⟨tag, held, rfl⟩ := Option.map_eq_some_iff.mp clause
    obtain ⟨event, member, accepted⟩ := List.any_eq_true.mp found
    exact ⟨tag, held, event, member, (idemItem_accepts tag event).mp accepted⟩
  have passed (clear : (host.idempotencyTag.map fun tag => [idemItem tag]).any
      (store.exists_after · 0) = false) : ∀ tag, host.idempotencyTag = some tag →
        ∀ event ∈ store.log, tag ∉ event.tags := by
    intro tag held event member carries
    rw [held, Option.map_some, Option.any_some] at clear
    have found : store.exists_after [idemItem tag] 0 = true :=
      List.any_eq_true.mpr ⟨event, member, (idemItem_accepts tag event).mpr carries⟩
    rw [found] at clear
    cases clear
  have landing : built ≠ [] := by
    rintro rfl
    exact some_events (List.isEmpty_iff.mpr (List.length_eq_zero_iff.mp length.symm))
  dsimp only
  rcases store.append_cases built (queryOf condition.slices) condition.after
    (host.idempotencyTag.map fun tag => [idemItem tag]) with eq | eq | ⟨failed, eq⟩ | ⟨clear, eq⟩
  · rw [eq]
    exact .shutdown _
  · rw [eq]
    exact .refused _
  · rw [eq]
    obtain ⟨tag, guard, present⟩ := guarded failed
    exact .duplicated _ guard present
  · rw [eq]
    exact .landed (fun none => some_events (List.isEmpty_iff.mpr none)) landing lowers (passed clear)

end HeklaHost

end Hekla.Host
