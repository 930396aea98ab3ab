import Hekla.Host.Append
import Hekla.Library.Runs

/-!
# An invocation's journal and its appends

Every impure call of an effect's arm is looked up in the journal first, and
performed and recorded on a miss.  An attempt may end at any point, by an error
or by a crash, and the next one starts the arm from its beginning.  The append
of an invoked command and the journal row of the call are two writes; the
append is guarded by the call's tag.

`appends` and `answers` are the history of a run: which call landed which
positions, and what each call was answered.  No action reads them.
-/

namespace Hekla.Host

open Hekla.Library

/-! ## Journal rows -/

/-- How an invoked command ended. -/
inductive Invoked where
  | ok
  | reject (code message : String)
  | invalid (message : String)
  deriving DecidableEq

/-- What a call is answered. -/
inductive Recorded where
  | response (status : Int64) (body : Json)
  | invoked (outcome : Invoked)
  | now (micros : Int64)
  | erased

namespace Invoked

def isOk : Invoked → Bool
  | .ok => true
  | _ => false

def code : Invoked → Option String
  | .reject code _ => some code
  | _ => none

def message : Invoked → Option String
  | .ok => none
  | .reject _ message | .invalid message => some message

end Invoked

def optional (text : Option String) : Json := text.elim .null .str

/-- A recorded result as a row, with its kind. -/
def encodeRecorded : Recorded → String × Json
  | .response status body => ("http", .obj [("status", .int status.toInt), ("body", body)])
  | .invoked outcome =>
      ("invoke", .obj [("ok", .bool outcome.isOk), ("code", optional outcome.code),
        ("message", optional outcome.message)])
  | .now micros => ("now", .obj [("micros", .int micros.toInt)])
  | .erased => ("erase", .obj [])

def invoked : Bool → Option String → Option String → Invoked
  | true, _, _ => .ok
  | false, some code, message => .reject code (message.getD "")
  | false, none, message => .invalid (message.getD "")

/-- The result a row holds, told by the members it has. -/
def decodeRecorded (row : Json) : Recorded :=
  match (row.get "micros").bind Json.asI64 with
  | some micros => .now micros
  | none =>
      match (row.get "status").bind Json.asI64 with
      | some status => .response status ((row.get "body").getD .null)
      | none =>
          match (row.get "ok").bind Json.asBool with
          | some ok =>
              .invoked (invoked ok ((row.get "code").bind Json.asStr)
                ((row.get "message").bind Json.asStr))
          | none => .erased

/-- A row reads back as what was recorded. -/
theorem decode_encode (recorded : Recorded) :
    decodeRecorded (encodeRecorded recorded).2 = recorded := by
  cases recorded with
  | response status body =>
      simp [encodeRecorded, decodeRecorded, Json.get, asI64_int]
  | invoked outcome => cases outcome <;> rfl
  | now micros => simp [encodeRecorded, decodeRecorded, Json.get, asI64_int]
  | erased => rfl

/-! ## An invocation across attempts -/

/-- A call of the arm: its key, and how many identical calls came before it. -/
structure CallId where
  call : String
  ordinal : Nat
  deriving DecidableEq, Repr

/-- How far an attempt is with the call it is making. -/
inductive AttemptPhase where
  | running
  | asked (id : CallId)
  | performed (id : CallId) (outcome : Recorded) (landed : Bool)

/-- The call an attempt is at. -/
def AttemptPhase.id : AttemptPhase → Option CallId
  | .running => none
  | .asked id | .performed id _ _ => some id

structure Attempt where
  host : HeklaHost
  made : List String := []
  phase : AttemptPhase := .running

/-- One invocation of an effect, with the log it shares with everyone else. -/
structure Invocation where
  store : Store := {}
  journal : Table (String × Nat) Json := ∅
  attempt : Option Attempt := none
  appends : List (CallId × PositionRange) := []
  answers : List (CallId × Recorded) := []

/-- What an invoked command decides. -/
inductive Decision where
  | emits (events : List Event) (condition : AppendCondition)
  | reject (code message : String)
  | invalid (message : String)

inductive CallAct where
  | start (ctx : CommandContext)
  | ask (call : String)
  | invoke (decision : Decision)
      (storedSeal : Option (List (String × String) → String → Value → Except String String))
  | respond (status : Int64) (body : Json)
  | now (micros : Int64)
  | erase
  | record
  | fail
  | elsewhere (batch : List StoredEvent) (draining : Bool)

/-- What is fixed for an invocation: its effect and position, the declarations
of the program and the digest. -/
structure Invoking where
  sha256Hex : String → String
  effect : String
  position : Nat
  events : EventDefs

namespace Invocation

variable (unit : Invoking)

/-- The host of one attempt: it carries no request key. -/
def attemptHost (ctx : CommandContext) : HeklaHost :=
  { events := unit.events, ctx, call := some none }

/-- Where a call is filed in the journal. -/
def row (id : CallId) : String × Nat := (unit.sha256Hex id.call, id.ordinal)

/-- The tag a call's append is guarded by. -/
def callTag (id : CallId) : String :=
  idempotencyTag unit.sha256Hex unit.effect
    s!"{unit.position}:{unit.sha256Hex id.call}:{id.ordinal}"

/-- Look a call up, after publishing its tag to the host. -/
def ask (w : Invocation) (attempt : Attempt) (call : String) : Invocation :=
  let id : CallId := ⟨call, attempt.made.count call⟩
  let host := { attempt.host with call := some (some (callTag unit id)) }
  match w.journal.get (row unit id) with
  | some held =>
      { w with
        attempt := some { host, made := attempt.made ++ [call] }
        answers := w.answers ++ [(id, decodeRecorded held)] }
  | none => { w with attempt := some { host, made := attempt.made, phase := .asked id } }

/-- The attempt has performed the call it asked for. -/
def perform (w : Invocation) (attempt : Attempt) (id : CallId) (outcome : Recorded)
    (landed : Bool) : Invocation :=
  { w with attempt := some { attempt with phase := .performed id outcome landed } }

/-- Run an invoked command and append what it emits. -/
def invoke (w : Invocation) (attempt : Attempt) (id : CallId) : Decision → Invocation
  | .reject code message => w.perform attempt id (.invoked (.reject code message)) false
  | .invalid message => w.perform attempt id (.invoked (.invalid message)) false
  | .emits events condition =>
      match attempt.host.append w.store events condition with
      | (host, store, .ok ()) =>
          match events with
          | [] => perform { w with store } { attempt with host } id (.invoked .ok) false
          | _ :: _ =>
              { perform { w with store } { attempt with host } id (.invoked .ok) true with
                appends := w.appends ++ host.appended.toList.map fun range => (id, range) }
      | (_, store, .error _) => { w with store, attempt := none }

/-- Insert the row of a performed call; a row already there ends the attempt. -/
def record (w : Invocation) (attempt : Attempt) (id : CallId) (outcome : Recorded) : Invocation :=
  match w.journal.get (row unit id) with
  | some _ => { w with attempt := none }
  | none =>
      { w with
        journal := w.journal.set (row unit id) (encodeRecorded outcome).2
        attempt := some { attempt with made := attempt.made ++ [id.call], phase := .running }
        answers := w.answers ++ [(id, outcome)] }

def step (w : Invocation) : CallAct → Option Invocation
  | .start ctx =>
      match w.attempt with
      | none => some { w with attempt := some { host := attemptHost unit ctx } }
      | some _ => none
  | .ask call =>
      match w.attempt with
      | some ⟨host, made, .running⟩ => some (w.ask unit ⟨host, made, .running⟩ call)
      | _ => none
  | .invoke decision storedSeal =>
      match w.attempt with
      | some ⟨host, made, .asked id⟩ =>
          some (w.invoke ⟨{ host with storedSeal }, made, .asked id⟩ id decision)
      | _ => none
  | .respond status body =>
      match w.attempt with
      | some ⟨host, made, .asked id⟩ =>
          some (w.perform ⟨host, made, .asked id⟩ id (.response status body) false)
      | _ => none
  | .now micros =>
      match w.attempt with
      | some ⟨host, made, .asked id⟩ =>
          some (w.perform ⟨host, made, .asked id⟩ id (.now micros) false)
      | _ => none
  | .erase =>
      match w.attempt with
      | some ⟨host, made, .asked id⟩ =>
          some (w.perform ⟨host, made, .asked id⟩ id .erased false)
      | _ => none
  | .record =>
      match w.attempt with
      | some ⟨host, made, .performed id outcome landed⟩ =>
          some (w.record unit ⟨host, made, .performed id outcome landed⟩ id outcome)
      | _ => none
  | .fail =>
      match w.attempt with
      | some _ => some { w with attempt := none }
      | none => none
  | .elsewhere batch draining =>
      some { w with store := { w.store with log := w.store.log ++ batch, draining } }

variable {unit : Invoking}

/-! ## What an invoked command leaves -/

/-- The outcomes of running an invoked command. -/
inductive Invokes (w : Invocation) (id : CallId) : Invocation → Prop where
  | performed (host : HeklaHost) (made : List String) (outcome : Recorded) :
      Invokes w id { w with attempt := some ⟨host, made, .performed id outcome false⟩ }
  | landed (host : HeklaHost) (made : List String) (built : List StoredEvent) :
      Invokes w id
        { w with
          store := { w.store with log := w.store.log ++ built }
          attempt := some ⟨host, made, .performed id (.invoked .ok) true⟩
          appends := w.appends ++ [(id, ⟨w.store.head + 1, w.store.head + built.length⟩)] }
  | failed : Invokes w id { w with attempt := none }

theorem invokes (w : Invocation) (attempt : Attempt) (id : CallId) (decision : Decision) :
    w.Invokes id (w.invoke attempt id decision) := by
  cases decision with
  | reject code message => exact .performed _ _ _
  | invalid message => exact .performed _ _ _
  | emits events condition =>
      have spec := attempt.host.append_spec w.store events condition
      simp only [invoke]
      generalize attempt.host.append w.store events condition = appended at spec ⊢
      cases spec with
      | refused error => exact .failed
      | nothing empty =>
          subst empty
          exact .performed _ _ _
      | @landed built emitted emits some_events lowered unguarded =>
          cases events with
          | nil => exact absurd rfl emits
          | cons event rest => exact .landed _ _ built
      | shutdown message => exact .failed
      | duplicated message guard present => exact .failed

/-! ## What every run keeps -/

/-- The attempt has appended for a call and not yet recorded it. -/
def Unrecorded (w : Invocation) (id : CallId) : Prop :=
  ∃ attempt outcome, w.attempt = some attempt ∧ attempt.phase = .performed id outcome true

/-- No attempt ends between a call's append and its journal record. -/
def RecordsAppends (w : Invocation) (act : CallAct) : Prop :=
  act = .fail → ∀ id, ¬w.Unrecorded id

/-- Every call that appended is recorded as done, or about to be. -/
structure Once (unit : Invoking) (w : Invocation) : Prop where
  distinct : (w.appends.map Prod.fst).Nodup
  filed : ∀ entry ∈ w.appends,
    w.journal.get (row unit entry.1) = some (encodeRecorded (.invoked .ok)).2 ∨
      w.Unrecorded entry.1
  done : ∀ attempt id outcome, w.attempt = some attempt →
    attempt.phase = .performed id outcome true → outcome = .invoked .ok
  missing : ∀ attempt id, w.attempt = some attempt → attempt.phase.id = some id →
    w.journal.get (row unit id) = none
  answered : ∀ answer ∈ w.answers, ∃ held,
    w.journal.get (row unit answer.1) = some held ∧ decodeRecorded held = answer.2

theorem once_start (unit : Invoking) : ({} : Invocation).Once unit where
  distinct := List.nodup_nil
  filed entry member := by cases member
  done attempt id outcome up := by cases up
  missing attempt id up := by cases up
  answered answer member := by cases member

/-- An action that writes neither the journal nor the history, and ends no
attempt that has appended, keeps everything. -/
theorem Once.frame {w w' : Invocation} (once : w.Once unit) (journal : w'.journal = w.journal)
    (appends : w'.appends = w.appends) (answers : w'.answers = w.answers)
    (pending : ∀ id, w.Unrecorded id → w'.Unrecorded id)
    (done : ∀ attempt id outcome, w'.attempt = some attempt →
      attempt.phase = .performed id outcome true → outcome = .invoked .ok)
    (missing : ∀ attempt id, w'.attempt = some attempt → attempt.phase.id = some id →
      w.journal.get (row unit id) = none) : w'.Once unit where
  distinct := by
    rw [appends]
    exact once.distinct
  filed entry member := by
    rw [appends] at member
    rw [journal]
    exact (once.filed entry member).imp_right (pending entry.1)
  done := done
  missing := by
    rw [journal]
    exact missing
  answered answer member := by
    rw [answers] at member
    rw [journal]
    exact once.answered answer member

/-- An attempt that has not performed a call has nothing unrecorded. -/
theorem not_unrecorded {w : Invocation} {attempt : Attempt} (up : w.attempt = some attempt)
    (before : ∀ id outcome, attempt.phase ≠ .performed id outcome true) (id : CallId) :
    ¬w.Unrecorded id := by
  rintro ⟨other, outcome, up', at_append⟩
  rw [up] at up'
  cases up'
  exact before id outcome at_append

theorem Once.ask {w : Invocation} (once : w.Once unit) {attempt : Attempt}
    (up : w.attempt = some attempt) (running : attempt.phase = .running) (call : String) :
    (w.ask unit attempt call).Once unit := by
  have idle := not_unrecorded up (by rw [running]; exact nofun)
  unfold Invocation.ask
  dsimp only
  split
  · next held found =>
      refine ⟨once.distinct, ?_, ?_, ?_, ?_⟩
      · intro entry member
        exact (once.filed entry member).imp_right fun pending => absurd pending (idle _)
      · intro other id outcome up' at_append
        cases up'
        cases at_append
      · intro other id up' at_call
        cases up'
        cases at_call
      · intro answer member
        rcases List.mem_append.mp member with old | new
        · exact once.answered answer old
        · rw [List.mem_singleton.mp new]
          exact ⟨held, found, rfl⟩
  · next absent =>
      refine once.frame rfl rfl rfl (fun id pending => absurd pending (idle id)) ?_ ?_
      · intro other id outcome up' at_append
        cases up'
        cases at_append
      · intro other id up' at_call
        cases up'
        cases at_call
        exact absent

theorem Once.perform {w : Invocation} (once : w.Once unit) {attempt : Attempt}
    (up : w.attempt = some attempt) {id : CallId} (asked : attempt.phase = .asked id)
    (host : HeklaHost) (made : List String) (outcome : Recorded) :
    ({ w with attempt := some ⟨host, made, .performed id outcome false⟩ } :
      Invocation).Once unit := by
  have idle := not_unrecorded up (by rw [asked]; exact nofun)
  refine once.frame rfl rfl rfl (fun other pending => absurd pending (idle other)) ?_ ?_
  · intro other at_call at_outcome up' at_append
    cases up'
    cases at_append
  · intro other at_call up' same
    cases up'
    cases same
    exact once.missing attempt id up (by rw [asked]; rfl)

theorem Once.invoke {w w' : Invocation} (once : w.Once unit) {attempt : Attempt}
    (up : w.attempt = some attempt) {id : CallId} (asked : attempt.phase = .asked id)
    (invokes : w.Invokes id w') : w'.Once unit := by
  have idle := not_unrecorded up (by rw [asked]; exact nofun)
  have absent := once.missing attempt id up (by rw [asked]; rfl)
  cases invokes with
  | performed host made outcome => exact once.perform up asked host made outcome
  | failed =>
      refine once.frame rfl rfl rfl (fun other pending => absurd pending (idle other)) ?_ ?_
      · intro other at_call at_outcome up'
        cases up'
      · intro other at_call up'
        cases up'
  | landed host made built =>
      refine ⟨?_, ?_, ?_, ?_, once.answered⟩
      · -- A call that had appended would have had its row.
        rw [List.map_append, List.nodup_append]
        refine ⟨once.distinct, List.nodup_singleton _, ?_⟩
        rintro other member new inNew rfl
        obtain ⟨entry, listed, rfl⟩ := List.mem_map.mp member
        have same : entry.1 = id := List.mem_singleton.mp inNew
        rcases once.filed entry listed with held | pending
        · rw [same, absent] at held
          cases held
        · exact idle _ pending
      · intro entry member
        rcases List.mem_append.mp member with old | new
        · exact (once.filed entry old).imp_right fun pending => absurd pending (idle _)
        · rw [List.mem_singleton.mp new]
          exact .inr ⟨_, _, rfl, rfl⟩
      · intro other at_call outcome up' at_append
        cases up'
        cases at_append
        rfl
      · intro other at_call up' same
        cases up'
        cases same
        exact absent

theorem Once.record {w : Invocation} (once : w.Once unit) {attempt : Attempt}
    (up : w.attempt = some attempt) {id : CallId} {outcome : Recorded} {landed : Bool}
    (performed : attempt.phase = .performed id outcome landed) :
    (w.record unit attempt id outcome).Once unit := by
  have absent := once.missing attempt id up (by rw [performed]; rfl)
  have row_set (other : CallId) : (w.journal.set (row unit id) (encodeRecorded outcome).2).get
      (row unit other) = if row unit other = row unit id then some (encodeRecorded outcome).2
        else w.journal.get (row unit other) := Table.get_set ..
  unfold Invocation.record
  rw [absent]
  refine ⟨once.distinct, ?_, ?_, ?_, ?_⟩
  · intro entry member
    left
    change (w.journal.set _ _).get (row unit entry.1) = _
    rw [row_set]
    rcases once.filed entry member with held | ⟨other, at_outcome, up', at_append⟩
    · rw [if_neg]
      · exact held
      · intro same
        rw [same, absent] at held
        cases held
    · rw [up] at up'
      cases up'
      rw [performed] at at_append
      cases at_append
      have ok := once.done attempt _ outcome up performed
      rw [if_pos rfl, ok]
  · intro other at_call at_outcome up' at_append
    cases up'
    cases at_append
  · intro other at_call up' same
    cases up'
    cases same
  · intro answer member
    change ∃ held, (w.journal.set _ _).get (row unit answer.1) = some held ∧ _
    rw [row_set]
    rcases List.mem_append.mp member with old | new
    · obtain ⟨held, found, same⟩ := once.answered answer old
      refine ⟨held, ?_, same⟩
      rw [if_neg]
      · exact found
      · intro same_row
        rw [same_row, absent] at found
        cases found
    · rw [List.mem_singleton.mp new]
      exact ⟨_, if_pos rfl, decode_encode outcome⟩

theorem Once.step {w w' : Invocation} {act : CallAct} (once : w.Once unit)
    (records : w.RecordsAppends act) (taken : w.step unit act = some w') : w'.Once unit := by
  cases act with
  | start ctx =>
      simp only [Invocation.step] at taken
      split at taken
      · next down =>
          cases taken
          refine once.frame rfl rfl rfl ?_ ?_ ?_
          · rintro id ⟨attempt, outcome, up, -⟩
            rw [down] at up
            cases up
          · intro attempt id outcome up at_append
            cases up
            cases at_append
          · intro attempt id up at_call
            cases up
            cases at_call
      · cases taken
  | ask call =>
      simp only [Invocation.step] at taken
      split at taken
      · next up => exact Option.some.inj taken ▸ once.ask up rfl call
      · cases taken
  | invoke decision storedSeal =>
      simp only [Invocation.step] at taken
      split at taken
      · next up => exact Option.some.inj taken ▸ once.invoke up rfl (invokes _ _ _ decision)
      · cases taken
  | respond status body =>
      simp only [Invocation.step] at taken
      split at taken
      · next up => exact Option.some.inj taken ▸ once.perform up rfl _ _ _
      · cases taken
  | now micros =>
      simp only [Invocation.step] at taken
      split at taken
      · next up => exact Option.some.inj taken ▸ once.perform up rfl _ _ _
      · cases taken
  | erase =>
      simp only [Invocation.step] at taken
      split at taken
      · next up => exact Option.some.inj taken ▸ once.perform up rfl _ _ _
      · cases taken
  | record =>
      simp only [Invocation.step] at taken
      split at taken
      · next up => exact Option.some.inj taken ▸ once.record up rfl
      · cases taken
  | fail =>
      simp only [Invocation.step] at taken
      split at taken
      · cases taken
        refine once.frame rfl rfl rfl (fun id pending => absurd pending (records rfl id)) ?_ ?_
        · intro other id outcome up
          cases up
        · intro other id up
          cases up
      · cases taken
  | elsewhere batch draining =>
      cases taken
      exact once.frame rfl rfl rfl (fun _ pending => pending) once.done once.missing

theorem once_of_run {acts : List CallAct} {w : Invocation} (ran : run (step unit) {} acts = some w)
    (records : Guarded (step unit) RecordsAppends {} acts) : w.Once unit :=
  run_invariant_of_guarded (Once unit) (fun _ _ _ once records taken => once.step records taken)
    (once_start unit) records ran

/-- Whatever an effect's arm calls, and however many attempts end in errors or
crashes, as long as none ends between a call's append and its journal record: a
call appends at most once, all its answers agree, and a call that appended is
answered that its command went through. -/
theorem invoke_at_most_once (unit : Invoking) (acts : List CallAct) (w : Invocation)
    (ran : run (step unit) {} acts = some w)
    (records : Guarded (step unit) RecordsAppends {} acts) :
    (∀ id, (w.appends.map Prod.fst).count id ≤ 1) ∧
      (∀ id outcome outcome', (id, outcome) ∈ w.answers → (id, outcome') ∈ w.answers →
        outcome = outcome') ∧
      ∀ id range outcome, (id, range) ∈ w.appends → (id, outcome) ∈ w.answers →
        outcome = .invoked .ok := by
  have once := once_of_run ran records
  refine ⟨fun id => List.nodup_iff_count_le_one.mp once.distinct id, ?_, ?_⟩
  · intro id outcome outcome' first second
    obtain ⟨held, found, same⟩ := once.answered _ first
    obtain ⟨held', found', same'⟩ := once.answered _ second
    have rows : held = held' := Option.some.inj (found.symm.trans found')
    exact same.symm.trans ((congrArg decodeRecorded rows).trans same')
  · intro id range outcome appended answered
    obtain ⟨held, found, same⟩ := once.answered _ answered
    rcases once.filed _ appended with filed | ⟨attempt, at_outcome, up, at_append⟩
    · have rows : held = _ := Option.some.inj (found.symm.trans filed)
      rw [rows, decode_encode] at same
      exact same.symm
    · have absent := once.missing attempt id up (by rw [at_append]; rfl)
      rw [absent] at found
      cases found

/-- An event type about an order, in the clear. -/
def ofOrder : EventDef where
  fields := [("order_id", {})]
  distinct := by decide
  identifiers := by decide
  unreserved := by decide

/-- An effect that records each notification it sent. -/
def notifying : Invoking where
  sha256Hex text := text
  effect := "NotifyCustomer"
  position := 1
  events := (∅ : EventDefs).set "order.notified" ofOrder

/-- The command's one event, and the attempt up to its append. -/
def notified : List CallAct :=
  [.start ⟨"c", "k", none⟩, .ask "invoke RecordNotified",
    .invoke (.emits
      [{ path := ["order", "notified"]
         fields := (∅ : Table String Value).set "order_id" ⟨.str "o1", false⟩ }] {}) none]

/-- Each append is recorded before the attempt ends, and the next attempt is
answered from the journal. -/
def notifiedTwice : List CallAct :=
  notified ++ [.record, .fail, .start ⟨"c", "l", none⟩, .ask "invoke RecordNotified",
    .ask "invoke RecordNotified", .invoke (.reject "done" "already notified") none, .record]

/-- An attempt that ends has no append waiting for its record. -/
def noAppendPending (w : Invocation) : CallAct → Bool
  | .fail =>
      match w.attempt with
      | some ⟨_, _, .performed _ _ landed⟩ => !landed
      | _ => true
  | _ => true

theorem recordsAppends_of_noAppendPending {w : Invocation} {act : CallAct}
    (clear : w.noAppendPending act = true) : w.RecordsAppends act := by
  rintro rfl id ⟨⟨host, made, phase⟩, outcome, up, at_append⟩
  dsimp only at at_append
  unfold noAppendPending at clear
  rw [up, at_append] at clear
  cases clear

theorem invoke_at_most_once_of_notifiedTwice :
    ∃ w, run (step notifying) {} notifiedTwice = some w ∧
      (w.appends.map Prod.fst).count ⟨"invoke RecordNotified", 0⟩ ≤ 1 := by
  have ended : (run (step notifying) {} notifiedTwice).isSome = true := by decide
  obtain ⟨w, ran⟩ := Option.isSome_iff_exists.mp ended
  have clear : Guarded (step notifying) (fun w act => w.noAppendPending act = true) {}
      notifiedTwice := by decide
  have records := Guarded.imp (fun _ _ => recordsAppends_of_noAppendPending) clear
  exact ⟨w, ran, (invoke_at_most_once notifying notifiedTwice w ran records).1 _⟩

/-- The process dies after the append and before the journal record, and the
next attempt's append meets no event with the call's tag. -/
theorem appended_twice :
    ∃ w, run (step notifying) {} (notified ++ .fail :: notified) = some w ∧
      w.appends = [(⟨"invoke RecordNotified", 0⟩, ⟨1, 1⟩),
        (⟨"invoke RecordNotified", 0⟩, ⟨2, 2⟩)] := by
  have ended : (run (step notifying) {} (notified ++ .fail :: notified)).any (fun w =>
      decide (w.appends = [(⟨"invoke RecordNotified", 0⟩, ⟨1, 1⟩),
        (⟨"invoke RecordNotified", 0⟩, ⟨2, 2⟩)])) = true := by decide
  obtain ⟨w, ran, holds⟩ := (Option.any_eq_true _ _).mp ended
  exact ⟨w, ran, of_decide_eq_true holds⟩

end Invocation

end Hekla.Host
