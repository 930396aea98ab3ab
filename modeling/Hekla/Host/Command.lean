import Hekla.Host.Journal

/-!
# Keyed requests

A request runs a command, and its retries run it again under the same key.  The
language decides, perhaps against a log that has moved since; the append is
guarded by the key's tag; and a request that finds it committed before reads
its events back from the log.  Requests interleave at every step, and one may
die at any of them.

`commits` and `answers` are the history of a run.  No action reads them.
-/

namespace Hekla.Host

open Hekla.Library

/-! ## What a request answers -/

structure RecoveredEvent where
  eventType : String
  tags : List String
  deriving DecidableEq

/-- A prior commit of the same request, read back from the log. -/
structure RecoveredOutcome where
  events : List RecoveredEvent
  positions : PositionRange
  correlationId : String
  causationId : String

/-- How a request ends; `failed` is an error that is logged and not reported. -/
inductive CommandOutcome where
  | committed (events : List EmittedEvent) (positions : Option PositionRange)
  | rejected (code message : String)
  | invalidInput (message : String)
  | conflict
  | alreadyCommitted (recovered : RecoveredOutcome)
  | unavailable (message : String)
  | failed (message : String)

/-- The body of a committed command, fresh or recovered. -/
structure CommittedBody where
  correlationId : String
  causationId : String
  positions : Option PositionRange
  events : List RecoveredEvent
  deriving DecidableEq

inductive Body where
  | committed (body : CommittedBody)
  | error (code message : String)
  deriving DecidableEq

structure ExecResult where
  status : Nat
  body : Body
  deriving DecidableEq

/-- The field is ciphertext in the events of this type. -/
def hides (defs : EventDefs) (type key : String) : Bool :=
  (defs.get type).any fun declared => declared.isSubject key

/-- One emitted event as a response reports it: subject tags are left out. -/
def reportEmitted (defs : EventDefs) (event : EmittedEvent) : RecoveredEvent :=
  ⟨event.eventType, tagStrings (event.tags.filter fun pair => !hides defs event.eventType pair.1)⟩

def successBody (defs : EventDefs) (ctx : CommandContext) (positions : Option PositionRange)
    (events : List EmittedEvent) : CommittedBody :=
  ⟨ctx.correlationId, ctx.causationId, positions, events.map (reportEmitted defs)⟩

def recoveredBody (recovered : RecoveredOutcome) : CommittedBody :=
  ⟨recovered.correlationId, recovered.causationId, some recovered.positions, recovered.events⟩

/-- The status and body of an outcome. -/
def CommandOutcome.result (defs : EventDefs) (ctx : CommandContext) : CommandOutcome → ExecResult
  | .committed events positions => ⟨200, .committed (successBody defs ctx positions events)⟩
  | .alreadyCommitted recovered => ⟨200, .committed (recoveredBody recovered)⟩
  | .rejected code message => ⟨422, .error code message⟩
  | .invalidInput message => ⟨400, .error "invalid_input" message⟩
  | .conflict =>
      ⟨409, .error "concurrency_conflict"
        "the command's consistency boundary kept changing during the request; retry"⟩
  | .unavailable message => ⟨503, .error "unavailable" message⟩
  | .failed _ => ⟨500, .error "internal" "internal error"⟩

/-! ## Reading a commit back -/

/-- One stored event as a response reports it: the host's tags and the subject
tags are left out. -/
def reportStored (defs : EventDefs) (event : StoredEvent) : RecoveredEvent :=
  ⟨event.eventType,
    sortTags ((event.tags.filter fun tag => !startsWith tag reservedTagPrefix).filter fun tag =>
      !hides defs event.eventType (tagKey tag))⟩

/-- What has been read back so far: the events, their range, and their ids. -/
structure Recovering where
  events : List RecoveredEvent := []
  range : Option PositionRange := none
  ids : Option (String × String) := none

/-- Read one more event back, unless another execution wrote it. -/
def recoverEvent (defs : EventDefs) (found : Recovering) (position : Nat) (event : StoredEvent) :
    Except String Recovering :=
  let range : PositionRange := ⟨(found.range.map PositionRange.first).getD position, position⟩
  let next (ids : String × String) : Recovering :=
    ⟨found.events ++ [reportStored defs event], some range, some ids⟩
  match found.ids with
  | none => .ok (next (event.envelope.correlationId, event.envelope.causationId))
  | some ids =>
      if event.envelope.causationId ≠ ids.2 then
        .error "idempotency tag matches events from more than one command execution"
      else .ok (next ids)

def recoverEvents (defs : EventDefs) (found : Recovering) :
    List (Nat × StoredEvent) → Except String Recovering
  | [] => .ok found
  | entry :: rest =>
      match recoverEvent defs found entry.1 entry.2 with
      | .error message => .error message
      | .ok found => recoverEvents defs found rest

/-- The prior commit of a request, by its tag. -/
def findCommittedOutcome (defs : EventDefs) (store : Store) (idemTag : String) :
    Except String (Option RecoveredOutcome) :=
  match recoverEvents defs {} (store.read [HeklaHost.idemItem idemTag]) with
  | .error message => .error message
  | .ok found =>
      match found.range, found.ids with
      | some range, some ids => .ok (some ⟨found.events, range, ids.1, ids.2⟩)
      | _, _ => .ok none

/-- The re-read of a request that is about to answer without having appended. -/
def recoverIfCommitted (defs : EventDefs) (store : Store) (boundaried : Bool)
    (idemTag : Option String) : Except String (Option RecoveredOutcome) :=
  match boundaried, idemTag with
  | true, some tag => findCommittedOutcome defs store tag
  | _, _ => .ok none

/-! ## Requests in flight -/

inductive RequestPhase where
  | deciding
  | appending (events : List Event) (condition : AppendCondition)
  | checking (fallback : CommandOutcome)
  | recovering
  | answered (outcome : CommandOutcome)

structure Request where
  host : HeklaHost
  boundaried : Bool
  attempt : Nat := 0
  phase : RequestPhase := .deciding

/-- One append that landed: who appended, where, and what. -/
structure Commit where
  idemTag : Option String
  ctx : CommandContext
  first : Nat
  batch : List StoredEvent

/-- A response, with the key and the ids of the request it was given to. -/
structure Answer where
  idemTag : Option String
  ctx : CommandContext
  result : ExecResult

structure Serving where
  store : Store := {}
  requests : Table Nat Request := ∅
  commits : List Commit := []
  answers : List Answer := []

/-- What a deployment fixes: the declarations, the digest, and how often a
conflict is retried. -/
structure Deployment where
  events : EventDefs
  sha256Hex : String → String
  maxAttempts : Nat

inductive ServeAct where
  | arrive (id : Nat) (command : String) (key : Option String) (ctx : CommandContext)
      (boundaried : Bool) (input : Except String Unit)
  | decide (id : Nat) (decision : Decision)
  | append (id : Nat)
      (storedSeal : Option (List (String × String) → String → Value → Except String String))
  | recover (id : Nat)
  | respond (id : Nat)
  | crash (id : Nat)
  | elsewhere (host : HeklaHost) (events : List Event) (condition : AppendCondition)
  | drain (draining : Bool)

namespace Serving

variable (unit : Deployment)

/-- The host of a request, and the outcome it starts with when it cannot run. -/
def arriving (command : String) (key : Option String) (ctx : CommandContext) (boundaried : Bool)
    (input : Except String Unit) : Request :=
  let host : HeklaHost :=
    { events := unit.events, ctx, idemTag := key.map (idempotencyTag unit.sha256Hex command) }
  match input with
  | .error message => { host, boundaried, phase := .answered (.invalidInput message) }
  | .ok () =>
      { host, boundaried
        phase := if unit.maxAttempts = 0 then .answered .conflict else .deciding }

/-- What the language's decision leads to. -/
def decided (request : Request) : Decision → Request
  | .emits events condition => { request with phase := .appending events condition }
  | .reject code message => { request with phase := .checking (.rejected code message) }
  | .invalid message => { request with phase := .checking (.invalidInput message) }

/-- What an append leads to. -/
def appended (request : Request) (host : HeklaHost) : Except HostError Unit → Request
  | .ok () =>
      match host.appended with
      | none => { request with host, phase := .checking (.committed host.emitted none) }
      | some range =>
          { request with host, phase := .answered (.committed host.emitted (some range)) }
  | .error error =>
      match host.unavailable with
      | some message => { request with host, phase := .answered (.unavailable message) }
      | none =>
          if host.duplicated then { request with host, phase := .recovering }
          else
            match error with
            | .host message => { request with host, phase := .answered (.failed message) }
            | .conflict _ =>
                if unit.maxAttempts ≤ request.attempt + 1 then
                  { request with host, phase := .answered .conflict }
                else { request with host, attempt := request.attempt + 1, phase := .deciding }

/-- What the re-read of a request's tag leads to. -/
def recovered (request : Request) (fallback : CommandOutcome)
    (found : Except String (Option RecoveredOutcome)) : Request :=
  match found with
  | .error message => { request with phase := .answered (.failed message) }
  | .ok (some outcome) => { request with phase := .answered (.alreadyCommitted outcome) }
  | .ok none => { request with phase := .answered fallback }

/-- Note an append that landed between two states of the store. -/
def landed (w : Serving) (host : HeklaHost) (store : Store) : Serving :=
  match store.log.drop w.store.log.length with
  | [] => { w with store }
  | event :: rest =>
      { w with
        store
        commits := w.commits ++
          [⟨host.idemTag, host.ctx, w.store.head + 1, event :: rest⟩] }

def step (w : Serving) : ServeAct → Option Serving
  | .arrive id command key ctx boundaried input =>
      match w.requests.get id with
      | none =>
          some { w with
            requests := w.requests.set id (arriving unit command key ctx boundaried input) }
      | some _ => none
  | .decide id decision =>
      match w.requests.get id with
      | some ⟨host, boundaried, attempt, .deciding⟩ =>
          some { w with
            requests := w.requests.set id (decided ⟨host, boundaried, attempt, .deciding⟩ decision) }
      | _ => none
  | .append id storedSeal =>
      match w.requests.get id with
      | some ⟨host, boundaried, attempt, .appending events condition⟩ =>
          let run := ({ host with storedSeal } : HeklaHost).append w.store events condition
          some { w.landed host run.2.1 with
            requests := w.requests.set id
              (appended unit ⟨host, boundaried, attempt, .appending events condition⟩ run.1
                run.2.2) }
      | _ => none
  | .recover id =>
      match w.requests.get id with
      | some ⟨host, boundaried, attempt, .checking fallback⟩ =>
          some { w with
            requests := w.requests.set id
              (recovered ⟨host, boundaried, attempt, .checking fallback⟩ fallback
                (recoverIfCommitted unit.events w.store boundaried host.idemTag)) }
      | some ⟨host, boundaried, attempt, .recovering⟩ =>
          some { w with
            requests := w.requests.set id
              (recovered ⟨host, boundaried, attempt, .recovering⟩
                (.failed "the idempotency guard fired but no committed outcome was found")
                (match host.idemTag with
                  | some tag => findCommittedOutcome unit.events w.store tag
                  | none => .error "the existence clause is only set when keyed")) }
      | _ => none
  | .respond id =>
      match w.requests.get id with
      | some ⟨host, _, _, .answered outcome⟩ =>
          some { w with
            requests := w.requests.remove id
            answers := w.answers ++
              [⟨host.idemTag, host.ctx, outcome.result unit.events host.ctx⟩] }
      | _ => none
  | .crash id => some { w with requests := w.requests.remove id }
  | .elsewhere host events condition =>
      -- An effect's append or any other: the program's events, and no request key.
      let run := ({ host with events := unit.events, idemTag := none } : HeklaHost).append w.store
        events condition
      some (w.landed { host with idemTag := none } run.2.1)
  | .drain draining => some { w with store := { w.store with draining } }

end Serving

end Hekla.Host
